import PipeSql.Query.Expr

/-! The stages of a pipeline. -/

namespace PipeSql.Query

/-- An output of `project`. -/
structure Projection where
  value : Expr
  label : Option String

/-- A column that `extend` adds. -/
structure Assignment where
  name : String
  value : Expr

/-- An aggregate over the rows of a group, with the name of its output column. -/
structure Aggregate where
  label : String
  function : String
  arguments : List Expr

/-- The directions of sorting. -/
inductive Direction where
  | ascending | descending
  deriving DecidableEq, Repr

/-- A column to sort by. -/
structure SortKey where
  column : Column
  direction : Direction
  deriving DecidableEq, Repr

/-- The kinds of join. -/
inductive JoinKind where
  | inner | left
  deriving DecidableEq, Repr

/-- When rows of two tables are joined: when the columns of these names are equal, or when a
condition holds. -/
inductive JoinCondition where
  | keys (names : List String)
  | condition (expr : Expr)

/-- A stage of a pipeline. -/
inductive Stage where
  | source (table : String)
  | filter (condition : Expr)
  | project (items : List Projection)
  | projectAway (names : List String)
  | extend (assignments : List Assignment)
  | summarize (aggregates : List Aggregate) (groups : List Column)
  | orderBy (keys : List SortKey)
  | limit (count : Nat)
  | take (count : Nat)
  | join (kind : JoinKind) (table : String) (on : JoinCondition)
  | top (count : Nat) (key : SortKey)

/-- The name of a stage. -/
def Stage.name : Stage → String
  | .source _ => "source"
  | .filter _ => "where"
  | .project _ => "project"
  | .projectAway _ => "project-away"
  | .extend _ => "extend"
  | .summarize .. => "summarize"
  | .orderBy _ => "order by"
  | .limit _ => "limit"
  | .take _ => "take"
  | .join .. => "join"
  | .top .. => "top"

end PipeSql.Query
