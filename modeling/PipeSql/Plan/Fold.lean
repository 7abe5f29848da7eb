import PipeSql.Catalog
import PipeSql.Plan.Scope
import PipeSql.Query.Error

/-!
Folding the stages of a pipeline into a plan, from left to right. Where several stages say the
same part of the plan, the last one wins.
-/

namespace PipeSql

open Query

/-- The select item of a column under its own name. -/
def SelectItem.ofColumn (name : String) : SelectItem :=
  .value (.column (.bare name)) none

/-- The equality of the columns named `key` of two tables. -/
def keyEquality (left right key : String) : Expr :=
  .binary (.compare .equal) (.column (.of left key)) (.column (.of right key))

/-- The columns of the given names are equal in two tables. -/
def keysEqual (left right : String) : List String → Expr
  | [] => .bool true
  | key :: keys =>
    keys.foldl (fun all next => .binary (.connect .and) all (keyEquality left right next))
      (keyEquality left right key)

/-- The condition of a join with the sides `$left` and `$right` named by their tables. -/
def nameSides (left right : String) (expr : Expr) : Expr :=
  expr.mapColumns fun column =>
    .column { column with
      table := column.table.map fun table =>
        match table.toLower with
        | "$left" => left
        | "$right" => right
        | _ => table }

/-- Puts an item in the place of the first one of its output name, or else at the end. -/
def overwrite (name : String) (item : SelectItem) : List SelectItem → List SelectItem
  | [] => [item]
  | first :: rest =>
    if first.outputName? = some name then item :: rest else first :: overwrite name item rest

namespace Plan

/-- The select list behind an assignment. -/
def assign (keys : List Column) (items : List SelectItem) (assignment : Assignment) :
    List SelectItem :=
  let scope : Scope := ⟨items, keys⟩
  overwrite assignment.name
    (.value (scope.resolve true assignment.value) (some assignment.name)) items

/-- The output of a column that is grouped by. -/
def groupItem (scope : Scope) (column : Column) : SelectItem :=
  let expr := scope.resolveColumn false column
  match expr with
  | .column c => .value expr (if c.name = column.name then none else some column.name)
  | _ => .value expr (some column.name)

/-- The columns that a wildcard stands for, if they are known. -/
def wildcardColumns? (catalog? : Option Catalog) (plan : Plan) : Option (List String) :=
  if plan.joins.isEmpty then catalog?.bind fun catalog => catalog.columns? plan.table else none

/-- The items of a select list with the wildcard replaced by the given columns. -/
def expanded (columns : List String) (items : List SelectItem) : List SelectItem :=
  items.flatMap fun item =>
    match item with
    | .everything => columns.map .ofColumn
    | item => [item]

/-- The items from which names are taken away. A wildcard of unknown columns has none. -/
def removable? (catalog? : Option Catalog) (plan : Plan) : Option (List SelectItem) :=
  match plan.select, plan.wildcardColumns? catalog? with
  | .wildcard, none => none
  | .wildcard, some columns => some (columns.map .ofColumn)
  | .items items, none => some items
  | .items items, some columns => some (expanded columns items)

/-- Leaves out the outputs of the given names. Some output has to be left. -/
def removeNames (catalog? : Option Catalog) (plan : Plan) (names : List String) :
    Except Error Plan :=
  match plan.removable? catalog? with
  | none => .ok plan
  | some items =>
    let kept := items.filter fun item => !item.outputName?.any names.contains
    if kept.isEmpty then .error (.misfit (.noColumnsLeft names) 0)
    else .ok { plan with select := .items kept }

/-- The plan behind a stage. A catalog tells the columns that a wildcard stands for. -/
def apply (catalog? : Option Catalog) (plan : Plan) : Stage → Except Error Plan
  | .source table => .ok { plan with table }
  | .filter condition =>
    .ok { plan with filters := plan.filters ++ [plan.scope.resolve false condition] }
  | .project items => .ok { plan with select := .items (items.map plan.scope.project) }
  | .projectAway names => plan.removeNames catalog? names
  | .extend assignments =>
    let items := match plan.select with
      | .wildcard => [.everything]
      | .items items => items
    .ok { plan with select := .items (assignments.foldl (assign plan.scope.keys) items) }
  | .summarize aggregates groups =>
    let aggregateItems := aggregates.map fun aggregate =>
      SelectItem.aggregate { aggregate with
        arguments := aggregate.arguments.map (plan.scope.resolve false) }
    .ok { plan with
      select := .items (aggregateItems ++ groups.map (groupItem plan.scope))
      groups := groups.map (plan.scope.resolveColumn false) }
  | .orderBy keys =>
    .ok { plan with
      order := keys.map fun key => { key with column := plan.scope.resolveKey key.column } }
  | .limit count | .take count => .ok { plan with limit := some count }
  | .join kind table on =>
    let condition := match on with
      | .keys keys => keysEqual plan.table table keys
      | .condition expr => nameSides plan.table table expr
    .ok { plan with joins := plan.joins ++ [⟨kind, table, condition⟩] }
  | .top count key =>
    .ok { plan with
      order := [{ key with column := plan.scope.resolveKey key.column }]
      limit := some count }

/-- The table of a second source among the stages. -/
def extraSource? (stages : List Stage) : Option String :=
  stages.findSome? fun stage =>
    match stage with
    | .source table => some table
    | _ => none

/-- The plan of a pipeline, which has one source, at its start. -/
def ofStages (catalog? : Option Catalog) : List Stage → Except Error Plan
  | [] => .error .emptyQuery
  | .source table :: rest =>
    match extraSource? rest with
    | some extra => .error (.badSource extra)
    | none => rest.foldlM (apply catalog?) (ofTable table)
  | other :: _ => .error (.badSource other.name)

end Plan

end PipeSql
