import PipeSql.Query.Stage

/-! The plan of a query: what one SELECT has to say. -/

namespace PipeSql

open Query

/-- An entry of a select list. `everything` stands for all columns of the tables, in front of the
columns that `extend` adds. -/
inductive SelectItem where
  | everything
  | value (expr : Expr) (label : Option String)
  | aggregate (of : Aggregate)

/-- The name of the output column of an item. -/
def SelectItem.outputName? : SelectItem → Option String
  | .everything => none
  | .value _ (some label) => some label
  | .value expr none => expr.outputName?
  | .aggregate of => some of.label

/-- What a query selects: all columns, or a list of items. -/
inductive SelectList where
  | wildcard
  | items (list : List SelectItem)

/-- A joined table, with the condition under which its rows are joined. -/
structure Join where
  kind : JoinKind
  table : String
  on : Expr

/-- The plan of a query. All `filters` have to hold. -/
structure Plan where
  table : String
  joins : List Join
  select : SelectList
  filters : List Expr
  groups : List Expr
  order : List SortKey
  limit : Option Nat

namespace Plan

/-- The plan that gives a table as it is. -/
def ofTable (table : String) : Plan :=
  { table, joins := [], select := .wildcard, filters := [], groups := [], order := [],
    limit := none }

/-- Gives a plan without limit the limit `n`, unless that is zero. -/
def capped (plan : Plan) (n : Nat) : Plan :=
  if plan.limit.isNone && 0 < n then { plan with limit := some n } else plan

/-- The items of the select list, which a wildcard has none of. -/
def outputs (plan : Plan) : List SelectItem :=
  match plan.select with
  | .wildcard => []
  | .items list => list

end Plan

end PipeSql
