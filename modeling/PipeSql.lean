import PipeSql.Cli.Workspace
import PipeSql.Main
import PipeSql.Proofs.Query.Expr
import PipeSql.Proofs.Query.Stage
import PipeSql.Proofs.Rows.Value
import PipeSql.Proofs.Catalog.Reach
import PipeSql.Proofs.Rows.Stage
import PipeSql.Proofs.Rows.Output
import PipeSql.Proofs.Rows.Shaping
import PipeSql.Proofs.Rows.Inlining
import PipeSql.Proofs.Rows.Table
import PipeSql.Proofs.Rows.Grouping
import PipeSql.Proofs.Query.Expr.Equations
import PipeSql.Proofs.Query.Expr.Grammar
import PipeSql.Proofs.Query.Expr.Completeness
import PipeSql.Proofs.Query.Expr.Soundness
import PipeSql.Proofs.Query.Stage.Parsed
import PipeSql.Proofs.Query.Scan
import PipeSql.Proofs.Sql.Spelling
import PipeSql.Proofs.Sql.Replay
import PipeSql.Proofs.Plan.Removal
import PipeSql.Proofs.Plan.Equated
import PipeSql.Proofs.Plan.Shared
import PipeSql.Proofs.Plan.Pipeline
import PipeSql.Proofs.Plan.Columns
import PipeSql.Proofs.Plan.Accepted
import PipeSql.Proofs.Plan.Accounts
import PipeSql.Proofs.Plan.Provided
import PipeSql.Proofs.Plan.Evading
import PipeSql.Proofs.Plan.Sparing
import PipeSql.Proofs.Plan.Sorting
import PipeSql.Proofs.Plan.Arrangement
import PipeSql.Proofs.Plan.Hiding
import PipeSql.Proofs.Plan.Nesting
import PipeSql.Proofs.Sql.Lexical
import PipeSql.Proofs.Sql.Woven
import PipeSql.Proofs.Query.Expr.Spelled
import PipeSql.Proofs.Sql.Structure
import PipeSql.Proofs.Plan.Spelled
import PipeSql.Proofs.Query.Clean
import PipeSql.Proofs.Query.Literal
import PipeSql.Proofs.Query.Split
import PipeSql.Proofs.Sql.Fidelity
import PipeSql.Proofs.Sql.Passing
import PipeSql.Proofs.Sql.Statements
import PipeSql.Proofs.Session
import PipeSql.Proofs.Catalog.Agreement
import PipeSql.Proofs.Sql.Matching
import PipeSql.Proofs.Sql.Denotation
import PipeSql.Proofs.Sql.Meaning
import PipeSql.Proofs.Sql.Wholeness
import PipeSql.Proofs.Sql.Positions
import PipeSql.Proofs.Plan.Overriding
import PipeSql.Proofs.Sql.Capping
import PipeSql.Proofs.Sql.Arity
import PipeSql.Proofs.Text.Boundary
import PipeSql.Proofs.Query.Spans
import PipeSql.Proofs.Query.Refusal
import PipeSql.Proofs.Query.Expr.Remaining
import PipeSql.Proofs.Query.Guarded.Scan
import PipeSql.Proofs.Query.Guarded.Parts
import PipeSql.Proofs.Query.Guarded.Stage
import PipeSql.Proofs.Query.Cuts
import PipeSql.Proofs.Query.Recleaning
import PipeSql.Proofs.Query.Stage.Joined
import PipeSql.Proofs.Store.Guard
import PipeSql.Proofs.Sql.Atoms
import PipeSql.Proofs.Text.Utf8
import PipeSql.Proofs.Csv.RoundTrip
import PipeSql.Proofs.Query.Pieces
import PipeSql.Proofs.Query.Expr.Unsplit
import PipeSql.Proofs.Query.Commas
import PipeSql.Proofs.Query.Respacing
import PipeSql.Proofs.Query.Stage.Extended
import PipeSql.Proofs.Plan.Sequence
import PipeSql.Proofs.Query.Stage.Keys
import PipeSql.Proofs.Plan.Sides
import PipeSql.Proofs.Query.Stage.Gaps
import PipeSql.Proofs.Sql.RowCounts
