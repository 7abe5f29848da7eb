/-! Expressions over the columns of a table. -/

namespace PipeSql.Query

/-- A column by its name, with the table that provides it where one is given. -/
structure Column where
  table : Option String
  name : String
  deriving DecidableEq, Repr, Inhabited

/-- A column that is named without a table. -/
def Column.bare (name : String) : Column := ⟨none, name⟩

/-- A column of the given table. -/
def Column.of (table name : String) : Column := ⟨some table, name⟩

/-- The column that a dotted path names: its table is all that stands before the last dot. -/
def Column.ofPath (path : String) : Column :=
  let reversed := path.toList.reverse
  match reversed.dropWhile (· != '.') with
  | [] => .bare path
  | _ :: table =>
    .of (String.ofList table.reverse) (String.ofList (reversed.takeWhile (· != '.')).reverse)

/-- Comparisons; `like` and `unlike` match a text with a pattern. -/
inductive Comparison where
  | equal | notEqual | less | greater | lessEqual | greaterEqual | like | unlike
  deriving DecidableEq, Repr

/-- The connectives. -/
inductive Connective where
  | and | or
  deriving DecidableEq, Repr

/-- The operations of arithmetic. -/
inductive Arithmetic where
  | add | subtract | multiply | divide | modulo
  deriving DecidableEq, Repr

/-- The operators that stand between two operands. -/
inductive Operator where
  | compare (op : Comparison)
  | connect (op : Connective)
  | compute (op : Arithmetic)
  deriving DecidableEq, Repr

/-- An expression. A number keeps the digits it was written with. An `aggregate` is an output of
an earlier `summarize`, used inside a later expression. -/
inductive Expr where
  | column (column : Column)
  | text (value : String)
  | number (digits : String)
  | bool (value : Bool)
  | binary (op : Operator) (left right : Expr)
  | call (function : String) (arguments : List Expr)
  | aggregate (function : String) (arguments : List Expr)
  deriving Inhabited

/-- The name of the output column of an expression without label: that of a column. -/
def Expr.outputName? : Expr → Option String
  | .column c => some c.name
  | _ => none

mutual

/-- The expression with each column replaced by what `f` gives for it. -/
def Expr.mapColumns (f : Column → Expr) : Expr → Expr
  | .column c => f c
  | .text value => .text value
  | .number digits => .number digits
  | .bool value => .bool value
  | .binary op left right => .binary op (left.mapColumns f) (right.mapColumns f)
  | .call function arguments => .call function (Expr.mapColumnsAll f arguments)
  | .aggregate function arguments => .aggregate function (Expr.mapColumnsAll f arguments)

/-- The expressions of a list, each with its columns replaced. -/
def Expr.mapColumnsAll (f : Column → Expr) : List Expr → List Expr
  | [] => []
  | e :: es => e.mapColumns f :: Expr.mapColumnsAll f es

end

mutual

/-- The columns of an expression, from left to right. -/
def Expr.columns : Expr → List Column
  | .column c => [c]
  | .text _ | .number _ | .bool _ => []
  | .binary _ left right => left.columns ++ right.columns
  | .call _ arguments | .aggregate _ arguments => Expr.columnsAll arguments

/-- The columns of a list of expressions, from left to right. -/
def Expr.columnsAll : List Expr → List Column
  | [] => []
  | e :: es => e.columns ++ Expr.columnsAll es

end

theorem Expr.mapColumnsAll_eq_map (f : Column → Expr) (es : List Expr) :
    Expr.mapColumnsAll f es = es.map (Expr.mapColumns f) := by
  induction es with
  | nil => simp [Expr.mapColumnsAll]
  | cons e es ih => simp [Expr.mapColumnsAll, ih]

theorem Expr.columnsAll_eq_flatMap (es : List Expr) :
    Expr.columnsAll es = es.flatMap Expr.columns := by
  induction es with
  | nil => simp [Expr.columnsAll]
  | cons e es ih => simp [Expr.columnsAll, ih]

end PipeSql.Query
