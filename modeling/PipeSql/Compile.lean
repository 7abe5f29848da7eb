import PipeSql.Catalog.Reach
import PipeSql.Plan.Fold
import PipeSql.Query.Split
import PipeSql.Query.Stage.Parse
import PipeSql.Sql.Select

/-! From the text of a query to SQL. -/

namespace PipeSql

open Query

/-- How a query is compiled: with its names checked against a catalog, with a limit for plans that
have none, and for which dialect. -/
structure CompileOptions where
  catalog? : Option Catalog := none
  rowLimit? : Option Nat := none
  dialect : Sql.Dialect := .sqlite

/-- What a text asks for: SQL to be passed on as it is, or a plan. -/
inductive Request where
  | sql (text : String)
  | plan (plan : Plan)

/-- The plan of the stages of a pipeline. -/
def planOf (options : CompileOptions) (stages : List Stage) : Except Error Plan := do
  if let some catalog := options.catalog? then
    checkNames catalog stages
  let plan ← Plan.ofStages options.catalog? stages
  return match options.rowLimit? with
    | some n => plan.capped n
    | none => plan

/-- What the text of a query asks for. -/
def Request.ofText (options : CompileOptions) (text : String) : Except Error Request := do
  match ← split text.toList with
  | .sql query => return .sql (String.ofList query)
  | .stages texts => return .plan (← planOf options (← parsePipeline texts))

/-- The SQL for the text of a query. -/
def compile (options : CompileOptions) (text : String) : Except Error String := do
  match ← Request.ofText options text with
  | .sql query => return query
  | .plan plan => Sql.select options.dialect plan

end PipeSql
