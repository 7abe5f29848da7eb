import PipeSql.Proofs.Query.Stage
import PipeSql.Proofs.Rows.Value
import Mathlib.Data.List.Dedup

/-! # Running stages on rows

What the stages of a pipeline say on their own, one after the other, without a plan: each one makes
new rows of the rows that the stage before it left. A run is stuck where an expression names a
column that its row does not have. -/

namespace PipeSql

open Query

variable {V : Type*}

/-! ## One row -/

namespace Row

/-- The row behind an assignment, which adds a column or overwrites one. -/
def assign? (M : Meaning V) (row : Row V) (assignment : Assignment) : Option (Row V) :=
  (assignment.value.valueIn? M row).map (row.set assignment.name)

/-- The row of the items of `project`, which are all evaluated in the old row. -/
def project? (M : Meaning V) (row : Row V) (items : List Projection) : Option (Row V) :=
  (items.mapM fun item : Projection =>
    (item.value.valueIn? M row).map (item.name?, ·)).map ofOutputs

end Row

namespace Query

/-- What a stage makes of a row: it may drop the row. -/
def Stage.follow? (M : Meaning V) (row : Row V) : Stage → Option (Option (Row V))
  | .filter condition =>
    (condition.valueIn? M row).map fun value => if M.holds value then some row else none
  | .project items => (row.project? M items).map some
  | .extend assignments => (assignments.foldlM (Row.assign? M) row).map some
  | _ => none

/-- What a list of stages makes of a row. -/
def follow? (M : Meaning V) (row : Row V) : List Stage → Option (Option (Row V))
  | [] => some (some row)
  | stage :: stages => do
    match ← stage.follow? M row with
    | none => return none
    | some next => follow? M next stages

end Query

/-! ## All rows of a table -/

/-- The parts of a list in which `key` agrees. -/
def groupsBy {α κ : Type*} [DecidableEq κ] (key : α → κ) (as : List α) : List (List α) :=
  (as.map key).dedup.map fun k => as.filter fun a => key a = k

/-- The groups by the values of some expressions. Without any all rows are one group, even if there
are none. -/
def rowGroups [DecidableEq V] (M : Meaning V) (exprs : List Expr) (rows : List (Row V)) :
    List (List (Row V)) :=
  if exprs.isEmpty then [rows] else groupsBy (fun row => exprs.map (Expr.valueIn? M row)) rows

/-- The row that `summarize` makes of a group. -/
def Row.summary? (M : Meaning V) (aggregates : List Aggregate) (columns : List Column)
    (group : List (Row V)) : Option (Row V) := do
  let results ← aggregates.mapM fun aggregate =>
    ((Expr.aggregate aggregate.function aggregate.arguments).value? M group empty).map
      (some aggregate.label, ·)
  let keys ← columns.mapM fun column =>
    (group.head?.bind fun row => row.column? column).map (some column.name, ·)
  return ofOutputs (results ++ keys)

namespace Query

/-- What a stage makes of the rows of a table. -/
def Stage.run? [DecidableEq V] (M : Meaning V) (rows : List (Row V)) :
    Stage → Option (List (Row V))
  | .summarize aggregates columns =>
    (rowGroups M (columns.map .column) rows).mapM (Row.summary? M aggregates columns)
  | stage => (rows.mapM fun row => stage.follow? M row).map (·.filterMap id)

/-- What a list of stages makes of the rows of a table. -/
def run? [DecidableEq V] (M : Meaning V) (rows : List (Row V)) (stages : List Stage) :
    Option (List (Row V)) :=
  stages.foldlM (Stage.run? M) rows

end Query

end PipeSql
