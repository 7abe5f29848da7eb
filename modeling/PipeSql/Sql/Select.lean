import PipeSql.Plan
import PipeSql.Sql.Expr

/-! Plans as SQL: one SELECT, with its clauses in fixed order. -/

namespace PipeSql

open Query

/-- The expressions of a select item. -/
def SelectItem.expressions : SelectItem → List Expr
  | .everything => []
  | .value expr _ => [expr]
  | .aggregate of => of.arguments

/-- The expressions of a plan, in the order in which they are written. -/
def Plan.expressions (plan : Plan) : List Expr :=
  plan.outputs.flatMap SelectItem.expressions ++ plan.joins.map Join.on ++ plan.filters ++
    plan.groups

namespace Sql

/-- A select item. A label that a column has anyway is left out. -/
def itemText (dialect : Dialect) : SelectItem → String
  | .everything => "*"
  | .value expr none => exprText dialect 0 expr
  | .value (.column column) (some label) =>
    if column = .bare label then nameText label
    else columnText column ++ " AS " ++ nameText label
  | .value expr (some label) => exprText dialect 0 expr ++ " AS " ++ nameText label
  | .aggregate of =>
    aggregateText dialect of.function (exprTexts dialect of.arguments) ++ " AS " ++
      nameText of.label

/-- A select list. -/
def selectListText (dialect : Dialect) : SelectList → String
  | .wildcard => "*"
  | .items items => ", ".intercalate (items.map (itemText dialect))

/-- The clause of a join. -/
def joinClause (dialect : Dialect) (join : Join) : String :=
  " " ++ joinText join.kind ++ " " ++ quoteName join.table ++ " ON " ++
    exprText dialect 0 join.on

/-- The clause of the filters. A lone filter stands alone; several are operands of `AND`. -/
def whereClause (dialect : Dialect) : List Expr → String
  | [] => ""
  | [filter] => " WHERE " ++ exprText dialect 0 filter
  | filters =>
    " WHERE " ++ " AND ".intercalate
      (filters.map (exprText dialect (rightStrength (.connect .and))))

/-- The clause of the groups. -/
def groupClause (dialect : Dialect) : List Expr → String
  | [] => ""
  | groups => " GROUP BY " ++ ", ".intercalate (exprTexts dialect groups)

/-- The word for a direction. -/
def directionText : Direction → String
  | .ascending => "ASC"
  | .descending => "DESC"

/-- A sort key. -/
def sortKeyText (key : SortKey) : String :=
  columnText key.column ++ " " ++ directionText key.direction

/-- The clause of the sort keys. -/
def orderClause : List SortKey → String
  | [] => ""
  | keys => " ORDER BY " ++ ", ".intercalate (keys.map sortKeyText)

/-- The clause of the limit. -/
def limitClause : Option Nat → String
  | none => ""
  | some n => limitText n

/-- The SELECT that a plan says. -/
def selectText (dialect : Dialect) (plan : Plan) : String :=
  "SELECT " ++ selectListText dialect plan.select ++ " FROM " ++ quoteName plan.table ++
    String.join (plan.joins.map (joinClause dialect)) ++ whereClause dialect plan.filters ++
    groupClause dialect plan.groups ++ orderClause plan.order ++ limitClause plan.limit

/-- Why a plan cannot be written: its select list is empty, or a function of the query language is
called with a wrong number of arguments. -/
def obstacle? (plan : Plan) : Option Misfit :=
  match plan.select with
  | .items [] => some .emptySelectList
  | _ => misuseAny? plan.expressions

/-- The SELECT that a plan says, unless an obstacle is in the way. -/
def select (dialect : Dialect) (plan : Plan) : Except Error String :=
  match obstacle? plan with
  | some misfit => .error (.misfit misfit 0)
  | none => .ok (selectText dialect plan)

end Sql

end PipeSql
