import PipeSql.Query.Error
import PipeSql.Sql.Function
import PipeSql.Sql.Name

/-!
Expressions as SQL. Parentheses stand only where an operand binds looser than its place asks for.
Writing is total; a call whose function cannot have so many arguments is reported beforehand.
-/

namespace PipeSql.Sql

open Query

/-- How tightly an operator binds. -/
def strength : Operator → Nat
  | .connect .or => 1
  | .connect .and => 2
  | .compare _ => 3
  | .compute .add | .compute .subtract => 4
  | .compute .multiply | .compute .divide | .compute .modulo => 5

/-- How tightly the left operand has to bind. Comparisons do not chain. -/
def leftStrength : Operator → Nat
  | .compare _ => 4
  | op => strength op

/-- How tightly the right operand has to bind, since operators group to the left. -/
def rightStrength (op : Operator) : Nat :=
  strength op + 1

/-- The symbol of an operator. -/
def symbol : Operator → String
  | .compare .equal => "="
  | .compare .notEqual => "<>"
  | .compare .less => "<"
  | .compare .greater => ">"
  | .compare .lessEqual => "<="
  | .compare .greaterEqual => ">="
  | .compare .like => "LIKE"
  | .compare .unlike => "NOT LIKE"
  | .connect .and => "AND"
  | .connect .or => "OR"
  | .compute .add => "+"
  | .compute .subtract => "-"
  | .compute .multiply => "*"
  | .compute .divide => "/"
  | .compute .modulo => "%"

/-- The clause behind a pattern in which a backslash escapes wildcards. -/
def escapeText (op : Operator) (right : Expr) : String :=
  match op, right with
  | .compare .like, .text pattern | .compare .unlike, .text pattern =>
    if pattern.toList.contains '\\' then " ESCAPE '\\'" else ""
  | _, _ => ""

/-- A text, in parentheses where asked for. -/
def parenthesized (wanted : Bool) (text : String) : String :=
  if wanted then "(" ++ text ++ ")" else text

mutual

/-- An expression in a place that asks for operators of at least the strength `least`. -/
def exprText (dialect : Dialect) (least : Nat) : Expr → String
  | .column c => columnText c
  | .text value => quoteText value
  | .number digits => digits
  | .bool value => boolText value
  | .binary op left right =>
    parenthesized (strength op < least)
      (exprText dialect (leftStrength op) left ++ " " ++ symbol op ++ " " ++
        exprText dialect (rightStrength op) right ++ escapeText op right)
  | .call function arguments => callText dialect function (exprTexts dialect arguments)
  | .aggregate function arguments => aggregateText dialect function (exprTexts dialect arguments)

/-- Expressions that stand alone. -/
def exprTexts (dialect : Dialect) : List Expr → List String
  | [] => []
  | e :: es => exprText dialect 0 e :: exprTexts dialect es

end

mutual

/-- The first call, innermost first, whose function cannot have so many arguments. -/
def misuse? : Expr → Option Misfit
  | .column _ | .text _ | .number _ | .bool _ => none
  | .binary _ left right => (misuse? left).or (misuse? right)
  | .call function arguments =>
    (misuseAny? arguments).or
      (((Builtin.ofName? function).bind fun builtin => builtin.expected? arguments.length).map
        fun expected => .wrongArity function expected arguments.length)
  | .aggregate _ arguments => misuseAny? arguments

/-- The first such call in a list of expressions. -/
def misuseAny? : List Expr → Option Misfit
  | [] => none
  | e :: es => (misuse? e).or (misuseAny? es)

end

theorem exprTexts_eq_map (dialect : Dialect) (es : List Expr) :
    exprTexts dialect es = es.map (exprText dialect 0) := by
  induction es with
  | nil => rfl
  | cons e es ih => rw [exprTexts, ih, List.map_cons]

end PipeSql.Sql
