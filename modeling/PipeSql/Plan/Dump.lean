import PipeSql.Compile
import PipeSql.Text.Visible

/-! Dumps: a plan shown in full, one part a line, indented by its depth. -/

namespace PipeSql

open Query Text

/-- What a value is shown as, given the indentation of the line on which it starts. -/
def Dump := Nat → String

namespace Dump

/-- The spaces in front of a line. -/
def indentation (n : Nat) : String :=
  "".pushn ' ' n

/-- A value that is shown on one line. -/
def leaf (text : String) : Dump :=
  fun _ => text

/-- A text. -/
def text (s : String) : Dump :=
  leaf (visible s)

/-- Parts between brackets, each on lines of its own. -/
def enclosed (opening closing : String) (parts : List Dump) : Dump :=
  fun n =>
    opening ++ "\n" ++
      String.join (parts.map fun part => indentation (n + 4) ++ part (n + 4) ++ ",\n") ++
      indentation n ++ closing

/-- A part with its label. -/
def labelled (label : String) (part : Dump) : Dump :=
  fun n => label ++ ": " ++ part n

/-- A record with its fields. -/
def record (name : String) (fields : List (String × Dump)) : Dump :=
  enclosed (name ++ " \x7b") "\x7d" (fields.map fun (label, part) => labelled label part)

/-- A value inside another that has but this one. -/
def wrapped (name : String) (inner : Dump) : Dump :=
  enclosed (name ++ "(") ")" [inner]

/-- A list. -/
def list : List Dump → Dump
  | [] => leaf "[]"
  | items => enclosed "[" "]" items

/-- A value that may be missing. -/
def option : Option Dump → Dump
  | none => leaf "None"
  | some inner => wrapped "Some" inner

/-- A column. -/
def column (c : Column) : Dump :=
  record "ColumnRef" [("qualifier", option (c.table.map text)), ("name", text c.name)]

/-- The name of a comparison. -/
def comparison : Comparison → String
  | .equal => "Eq"
  | .notEqual => "NotEq"
  | .less => "Lt"
  | .greater => "Gt"
  | .lessEqual => "LtEq"
  | .greaterEqual => "GtEq"
  | .like => "Like"
  | .unlike => "NotLike"

/-- The name of a connective. -/
def connective : Connective → String
  | .and => "And"
  | .or => "Or"

/-- The name of an operation. -/
def arithmetic : Arithmetic → String
  | .add => "Add"
  | .subtract => "Sub"
  | .multiply => "Mul"
  | .divide => "Div"
  | .modulo => "Mod"

/-- The class and the name of an operator. -/
def operator : Operator → String × String
  | .compare op => ("Comparison", comparison op)
  | .connect op => ("Logical", connective op)
  | .compute op => ("Arithmetic", arithmetic op)

/-- A literal. -/
def literal (kind : String) (value : Dump) : Dump :=
  wrapped "Literal" (wrapped kind value)

mutual

/-- An expression. -/
def expr : Expr → Dump
  | .column c => wrapped "Column" (column c)
  | .text value => literal "Str" (text value)
  | .number digits => literal "Number" (text digits)
  | .bool value => literal "Bool" (leaf (if value then "true" else "false"))
  | .binary op left right =>
    record (operator op).1
      [("op", leaf (operator op).2), ("left", expr left), ("right", expr right)]
  | .call function arguments =>
    record "FunctionCall" [("name", text function), ("args", list (exprs arguments))]
  | .aggregate function arguments =>
    record "AggregateCall" [("function", text function), ("args", list (exprs arguments))]

/-- Expressions, one by one. -/
def exprs : List Expr → List Dump
  | [] => []
  | e :: es => expr e :: exprs es

end

/-- A select item. -/
def selectItem : SelectItem → Dump
  | .everything => leaf "AllColumns"
  | .value e label => record "Expr" [("expr", expr e), ("alias", option (label.map text))]
  | .aggregate of =>
    wrapped "Aggregate" (record "Aggregate"
      [("alias", text of.label), ("function", text of.function),
        ("args", list (exprs of.arguments))])

/-- A select list. -/
def selectList : SelectList → Dump
  | .wildcard => leaf "Wildcard"
  | .items items => wrapped "Items" (list (items.map selectItem))

/-- A join. -/
def join (j : Join) : Dump :=
  record "JoinClause"
    [("kind", leaf (match j.kind with | .inner => "Inner" | .left => "Left")),
      ("table", text j.table), ("on", expr j.on)]

/-- A sort key. -/
def sortKey (key : SortKey) : Dump :=
  record "SortKey"
    [("column", column key.column),
      ("direction", leaf (match key.direction with | .ascending => "Asc" | .descending => "Desc"))]

/-- A plan. -/
def plan (p : Plan) : Dump :=
  record "QueryPlan"
    [("table", text p.table), ("joins", list (p.joins.map join)),
      ("select_list", selectList p.select), ("filters", list (p.filters.map expr)),
      ("group_by", list (p.groups.map expr)), ("order_by", list (p.order.map sortKey)),
      ("limit", option (p.limit.map fun n => leaf (toString n)))]

end Dump

/-- What a request is shown as. -/
def Request.dump : Request → String
  | .sql query => "Passthrough(" ++ visible query ++ ")"
  | .plan p => Dump.plan p 0

/-- What the text of a query asks for, shown in full. No names are checked. -/
def explain (query : String) : Except Error String := do
  return (← Request.ofText {} query).dump

end PipeSql
