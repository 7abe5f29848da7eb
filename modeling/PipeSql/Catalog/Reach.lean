import PipeSql.Catalog
import PipeSql.Query.Error
import PipeSql.Query.Stage

/-!
Checking the names of a pipeline against a catalog. Each stage is checked with the names that the
stages before it leave in reach.
-/

namespace PipeSql

open Query

/-- The names in reach of a stage: tables by which a column may be qualified, columns by their
names alone, and those of these names that more than one table provides. -/
structure Reach where
  tables : List String
  columns : List String
  ambiguous : List String
  deriving DecidableEq, Repr, Inhabited

/-- The names that are equated across a join, as in `$left.id == $right.id`. -/
def equatedNames : Expr → List String
  | .binary (.connect _) left right => equatedNames left ++ equatedNames right
  | .binary (.compare .equal) (.column left) (.column right) =>
    if left.name = right.name ∧ left.table ≠ right.table then [left.name] else []
  | _ => []

namespace Reach

/-- Nothing is in reach before the first stage. -/
def empty : Reach := ⟨[], [], []⟩

/-- A column may be named so without a table, even where the name is ambiguous. -/
def checkName (reach : Reach) (name : String) : Except Error Unit :=
  if reach.columns.contains name then .ok () else .error (.unknownColumn name)

/-- The columns of a table that the catalog has to know. -/
def tableColumns (catalog : Catalog) (table : String) : Except Error (List String) :=
  match catalog.columns? table with
  | some columns => .ok columns
  | none => .error (.unknownTable table)

/-- A column is in reach: in the table that it names, or by its name alone. The sides of a join,
`$left` and `$right`, pass for tables. -/
def checkColumn (catalog : Catalog) (reach : Reach) (column : Column) : Except Error Unit :=
  match column.table with
  | none =>
    if reach.ambiguous.contains column.name then .error (.ambiguousColumn column.name)
    else reach.checkName column.name
  | some table =>
    if reach.tables.contains table then
      if (catalog.columns? table).any fun columns => columns.contains column.name then .ok ()
      else .error (.unknownColumn (table ++ "." ++ column.name))
    else if table.toList.head? = some '$' then reach.checkName column.name
    else .error (.unknownTable table)

/-- All columns of an expression are in reach. -/
def checkExpr (catalog : Catalog) (reach : Reach) (expr : Expr) : Except Error Unit :=
  expr.columns.forM (reach.checkColumn catalog)

/-- From now on these columns are in reach, and none is ambiguous. -/
def replaceColumns (reach : Reach) (columns : List String) : Reach :=
  { reach with columns, ambiguous := [] }

/-- The names in reach behind an assignment. -/
def afterAssignment (catalog : Catalog) (reach : Reach) (assignment : Assignment) :
    Except Error Reach := do
  reach.checkExpr catalog assignment.value
  return { reach with
    columns := assignment.name :: reach.columns
    ambiguous := reach.ambiguous.filter (· != assignment.name) }

/-- A key of a join is in reach, and the joined table provides it. -/
def checkKey (reach : Reach) (table : String) (columns : List String) (key : String) :
    Except Error Unit := do
  reach.checkName key
  if columns.contains key then .ok () else .error (.unknownColumn (table ++ "." ++ key))

/-- The names in reach behind a join. A name that both sides provide becomes ambiguous, unless the
join equates it. -/
def afterJoin (catalog : Catalog) (reach : Reach) (table : String) (on : JoinCondition) :
    Except Error Reach := do
  let columns ← tableColumns catalog table
  let joined := { reach with
    tables := reach.tables ++ [table]
    columns := reach.columns ++ columns }
  let shared := columns.filter reach.columns.contains
  match on with
  | .keys keys => do
    keys.forM (reach.checkKey table columns)
    return { joined with
      ambiguous := reach.ambiguous ++ shared.filter fun name => !keys.contains name }
  | .condition expr => do
    joined.checkExpr catalog expr
    return { joined with
      ambiguous := reach.ambiguous ++
        shared.filter fun name => !(equatedNames expr).contains name }

/-- The names in reach behind a stage whose names are in reach. -/
def after (catalog : Catalog) (reach : Reach) : Stage → Except Error Reach
  | .source table => do
    let columns ← tableColumns catalog table
    return { reach with
      tables := reach.tables ++ [table]
      columns := reach.columns ++ columns }
  | .filter condition => do
    reach.checkExpr catalog condition
    return reach
  | .project items => do
    items.forM fun item => reach.checkExpr catalog item.value
    return reach.replaceColumns
      (items.filterMap fun item => item.label.or item.value.outputName?)
  | .projectAway _ | .limit _ | .take _ => return reach
  | .extend assignments => assignments.foldlM (afterAssignment catalog) reach
  | .summarize aggregates groups => do
    aggregates.forM fun aggregate => aggregate.arguments.forM (reach.checkExpr catalog)
    groups.forM (reach.checkColumn catalog)
    return reach.replaceColumns (aggregates.map Aggregate.label ++ groups.map Column.name)
  | .orderBy keys => do
    keys.forM fun key => reach.checkColumn catalog key.column
    return reach
  | .top _ key => do
    reach.checkColumn catalog key.column
    return reach
  | .join _ table on => reach.afterJoin catalog table on

end Reach

/-- All names of a pipeline are in reach where they stand. -/
def checkNames (catalog : Catalog) (stages : List Stage) : Except Error Unit := do
  let _ ← stages.foldlM (Reach.after catalog) Reach.empty
  return ()

end PipeSql
