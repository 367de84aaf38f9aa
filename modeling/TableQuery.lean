import TableQuery.Directory
import TableQuery.Main
import TableQuery.Proofs.Operator.Chain
import TableQuery.Proofs.Operator.Root
import TableQuery.Proofs.Parser.Phrase
import TableQuery.Proofs.Grammar.Expression
import TableQuery.Proofs.Expr.Height
import TableQuery.Proofs.Grammar.Soundness
import TableQuery.Proofs.Grammar.Completeness
import TableQuery.Proofs.Grammar.Precedence
import TableQuery.Proofs.Grammar.Acceptance
import TableQuery.Proofs.Expr.Readable
import TableQuery.Proofs.Expr.RoundTrip
import TableQuery.Proofs.Evaluation.Transparency
import TableQuery.Proofs.Failure
import TableQuery.Proofs.Pipeline.Batches
import TableQuery.Proofs.Pipeline.Clauses
import TableQuery.Proofs.Pipeline.Runs
import TableQuery.Proofs.Expr.Aggregates
import TableQuery.Proofs.Expr.Spelling
import TableQuery.Proofs.Grouping.Representative
import TableQuery.Proofs.Expr.Resolution
import TableQuery.Proofs.Query.Identification
import TableQuery.Proofs.Grouping.Partition
import TableQuery.Proofs.Query.Refinement
import TableQuery.Proofs.Grouping.Arrival
import TableQuery.Proofs.Pipeline.Reading
import TableQuery.Proofs.Query.EarlyEnd
import TableQuery.Proofs.Text.Trimming
import TableQuery.Proofs.Token.Cutting
import TableQuery.Proofs.Token.Lexeme
import TableQuery.Proofs.Token.Written
import TableQuery.Proofs.Statement.Pieces
import TableQuery.Proofs.Statement.Ends
import TableQuery.Proofs.Statement.LineBreaks
import TableQuery.Proofs.Statement.Tokens
import TableQuery.Proofs.Session.Lines
import TableQuery.Proofs.Session.Breaking
import TableQuery.Proofs.Session.BlankLines
import TableQuery.Proofs.Sorting.Stability
import TableQuery.Proofs.Value.Comparison
import TableQuery.Proofs.Expr.Parts
import TableQuery.Proofs.Evaluation.Outline
import TableQuery.Proofs.Expr.Encoding
import TableQuery.Proofs.Expr.Identification
import TableQuery.Proofs.Expr.Marking
import TableQuery.Proofs.Query.WellFormed
import TableQuery.Proofs.Parser.Refusals
import TableQuery.Proofs.Grammar.Refusals
import TableQuery.Proofs.Evaluation.Failures
import TableQuery.Proofs.Pipeline.Carried
import TableQuery.Proofs.Pipeline.Failures
import TableQuery.Proofs.Pipeline.Calls
import TableQuery.Proofs.Pipeline.Barriers
import TableQuery.Proofs.Pipeline.Limits
import TableQuery.Proofs.Query.FailedRuns
import TableQuery.Proofs.Expr.Columns
import TableQuery.Proofs.Evaluation.Columns
import TableQuery.Proofs.Pipeline.Columns
import TableQuery.Proofs.Query.UnusedColumns
import TableQuery.Proofs.Token.Tiling
import TableQuery.Proofs.Token.Respacing
import TableQuery.Proofs.Table.Writing
import TableQuery.Proofs.Table.Scanning
import TableQuery.Proofs.Table.RoundTrip
import TableQuery.Proofs.Table.Reading
import TableQuery.Proofs.Pipeline.Invariants
import TableQuery.Proofs.Pipeline.Shapes
import TableQuery.Proofs.Pipeline.Collecting
import TableQuery.Proofs.Query.Rectangular
import TableQuery.Proofs.Pattern.Covering
import TableQuery.Proofs.Evaluation.Asking
import TableQuery.Proofs.Pipeline.Forgetting
import TableQuery.Proofs.Grammar.Nesting
import TableQuery.Proofs.Grammar.Shallow
import TableQuery.Proofs.Evaluation.Offences
import TableQuery.Proofs.Number.Exact
import TableQuery.Proofs.Number.Numerals
import TableQuery.Proofs.Number.Rounding
import TableQuery.Proofs.Number.RoundTrip
import TableQuery.Proofs.Aggregate.Reducing
import TableQuery.Proofs.Token.Quoting
import TableQuery.Proofs.Statement.Splitting
import TableQuery.Proofs.ScalarFunction.Trimming
import TableQuery.Proofs.Number.Nearest
import TableQuery.Proofs.Query.Counts
import TableQuery.Proofs.Query.RefusedPatterns
import TableQuery.Proofs.Text.Bytes
import TableQuery.Proofs.Token.Cursor
import TableQuery.Proofs.Token.Calls
import TableQuery.Proofs.Parser.Cursor
import TableQuery.Proofs.Parser.CursorLists
import TableQuery.Proofs.Grammar.Cursor
