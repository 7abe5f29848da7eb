import PipeSql.Query.Stage
import PipeSql.Proofs.Query.Expr

/-! # What the stages of a pipeline mention -/

namespace PipeSql.Query

/-- The name of the output column of an item of `project`, if it has one. -/
def Projection.name? (item : Projection) : Option String :=
  item.label.or item.value.outputName?

namespace Stage

/-- The expressions of a stage. -/
def expressions : Stage → List Expr
  | .filter condition => [condition]
  | .project items => items.map Projection.value
  | .extend assignments => assignments.map Assignment.value
  | .summarize aggregates _ => aggregates.flatMap Aggregate.arguments
  | .join _ _ (.condition expr) => [expr]
  | _ => []

/-- The expressions that a stage is read from. An aggregate is read as a call. -/
def parsed : Stage → List Expr
  | .summarize aggregates _ =>
    aggregates.map fun aggregate => .call aggregate.function aggregate.arguments
  | stage => stage.expressions

/-- The columns that a stage names, in its expressions or on their own. -/
def columns (stage : Stage) : List Column :=
  stage.expressions.flatMap Expr.columns ++
    match stage with
    | .summarize _ groups => groups
    | .orderBy keys => keys.map SortKey.column
    | .top _ key => [key.column]
    | _ => []

/-- The tables that a stage takes rows from. -/
def tables : Stage → List String
  | .source table | .join _ table _ => [table]
  | _ => []

/-- The names of the outputs that a stage puts in the place of all that there were. -/
def outputNames? : Stage → Option (List (Option String))
  | .project items => some (items.map Projection.name?)
  | .summarize aggregates groups =>
    some (aggregates.map (fun aggregate => some aggregate.label) ++
      groups.map fun column => some column.name)
  | _ => none

/-- No column of the stage is named with its table. -/
def Bare (stage : Stage) : Prop :=
  ∀ column ∈ stage.columns, column.table = none

/-- No aggregate occurs in the expressions of the stage. Such are all stages that are written in a
query; an aggregate comes into an expression only where a plan is built. -/
def Scalar (stage : Stage) : Prop :=
  ∀ expr ∈ stage.expressions, expr.Scalar

/-- The stages that give the columns of a row anew. -/
inductive Shaping : Stage → Prop where
  | project (items) : Shaping (.project items)
  | extend (assignments) : Shaping (.extend assignments)

/-- The stages that look at each row on its own. -/
inductive RowWise : Stage → Prop where
  | filter (condition) : RowWise (.filter condition)
  | shaping {stage} : Shaping stage → RowWise stage

theorem Bare.of_mem_expression {stage : Stage} (h : stage.Bare) {expr : Expr}
    (hexpr : expr ∈ stage.expressions) : ∀ column ∈ expr.columns, column.table = none := by
  intro column hcolumn
  exact h column (List.mem_append_left _ (List.mem_flatMap.mpr ⟨expr, hexpr, hcolumn⟩))

/-- Only a source and a join take rows from tables. -/
theorem tables_eq_nil {stage : Stage} (hsource : ∀ table, stage ≠ .source table)
    (hjoin : ∀ kind table on, stage ≠ .join kind table on) : stage.tables = [] := by
  cases stage with
  | source table => exact absurd rfl (hsource table)
  | join kind table on => exact absurd rfl (hjoin kind table on)
  | filter | project | projectAway | extend | summarize | orderBy | limit | take | top => rfl

theorem RowWise.ne_source {stage : Stage} (h : stage.RowWise) (table : String) :
    stage ≠ .source table := by
  rintro rfl
  cases h with
  | shaping h => cases h

end Stage

end PipeSql.Query
