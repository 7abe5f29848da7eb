import PipeSql.Plan

/-!
What a bare name means to the next stage. A name that an earlier stage computed stands for the
expression that computed it, since SQL cannot use the name inside the same select list. A name
that a join equates stands for the column of the left-hand table.
-/

namespace PipeSql

open Query

/-- The columns that the condition of a join equates under one name; of the two, that of `table`
or else the left one. -/
def keyColumns (table : String) : Expr → List Column
  | .binary (.connect .and) left right => keyColumns table left ++ keyColumns table right
  | .binary (.compare .equal) (.column left) (.column right) =>
    if left.table.isSome && right.table.isSome && left.name == right.name then
      [if right.table = some table then right else left]
    else []
  | _ => []

/-- The names that earlier stages defined. -/
structure Scope where
  outputs : List SelectItem
  keys : List Column

namespace Scope

/-- The item that computes the output column of the given name. -/
def output? (scope : Scope) (name : String) : Option SelectItem :=
  scope.outputs.find? fun item => item.outputName? == some name

/-- The column of a table that a name which nothing computes stands for. -/
def qualify (scope : Scope) (column : Column) : Column :=
  (scope.keys.find? fun key => key.name == column.name).getD column

/-- What a column stands for. An aggregate is put in its place only inside a select list. -/
def resolveColumn (scope : Scope) (inSelect : Bool) (column : Column) : Expr :=
  if column.table.isSome then .column column
  else
    match scope.output? column.name with
    | some (.value expr _) => expr
    | some (.aggregate of) =>
      if inSelect then .aggregate of.function of.arguments else .column column
    | some .everything => .column column
    | none => .column (scope.qualify column)

/-- What an expression stands for. -/
def resolve (scope : Scope) (inSelect : Bool) (expr : Expr) : Expr :=
  expr.mapColumns (scope.resolveColumn inSelect)

/-- What a sort key stands for. It may name an output column. -/
def resolveKey (scope : Scope) (column : Column) : Column :=
  if column.table.isSome then column
  else
    match scope.output? column.name with
    | some (.value (.column inner) none) => inner
    | some _ => column
    | none => scope.qualify column

/-- The output of an item of `project`. The bare name of an earlier output keeps that output,
under the new label if there is one. -/
def project (scope : Scope) (item : Projection) : SelectItem :=
  let earlier? : Option (String × SelectItem) :=
    match item.value with
    | .column column =>
      if column.table.isSome then none
      else (scope.output? column.name).map fun earlier => (column.name, earlier)
    | _ => none
  match earlier? with
  | some (name, .aggregate of) => .aggregate { of with label := item.label.getD name }
  | some (name, .value expr _) => .value expr (some (item.label.getD name))
  | some (_, .everything) => .everything
  | none => .value (scope.resolve true item.value) item.label

end Scope

/-- The scope of the stage behind a plan. -/
def Plan.scope (plan : Plan) : Scope :=
  { outputs := plan.outputs
    keys := plan.joins.flatMap fun join => keyColumns plan.table join.on }

end PipeSql
