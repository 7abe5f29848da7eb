import PipeSql.Sql.Dialect

/-!
Functions that SQL spells in another way than the query language does. All others keep their name
and their arguments.
-/

namespace PipeSql.Sql

/-- The scalar functions with a spelling of their own. -/
inductive Builtin where
  | length | lower | upper
  | cast (type : CastType)
  | isEmpty | isNotEmpty
  | concat | substring | choice | negation
  deriving DecidableEq, Repr

/-- The function of a name in any case. -/
def Builtin.ofName? (name : String) : Option Builtin :=
  match name.toLower with
  | "strlen" => some .length
  | "tolower" => some .lower
  | "toupper" => some .upper
  | "toint" | "tolong" => some (.cast .integer)
  | "todouble" | "toreal" => some (.cast .real)
  | "tostring" => some (.cast .text)
  | "isempty" => some .isEmpty
  | "isnotempty" => some .isNotEmpty
  | "strcat" => some .concat
  | "substring" => some .substring
  | "iff" | "iif" => some .choice
  | "not" => some .negation
  | _ => none

/-- The number of arguments that a function should have had, if it cannot have `n`. -/
def Builtin.expected? (function : Builtin) (n : Nat) : Option Nat :=
  match function with
  | .concat => none
  | .substring => if n = 2 || n = 3 then none else some 3
  | .choice => if n = 3 then none else some 3
  | _ => if n = 1 then none else some 1

/-- A call that keeps its name and arguments. -/
def plainCall (function : String) (arguments : List String) : String :=
  function ++ "(" ++ ", ".intercalate arguments ++ ")"

/-- The call of a scalar function on arguments that are SQL. -/
def callText (dialect : Dialect) (function : String) (arguments : List String) : String :=
  match Builtin.ofName? function, arguments with
  | some .length, [a] => "length(" ++ a ++ ")"
  | some .lower, [a] => "lower(" ++ a ++ ")"
  | some .upper, [a] => "upper(" ++ a ++ ")"
  | some (.cast type), [a] => "CAST(" ++ a ++ " AS " ++ dialect.castType type ++ ")"
  | some .isEmpty, [a] => "(" ++ a ++ " IS NULL OR " ++ a ++ " = '')"
  | some .isNotEmpty, [a] => "(" ++ a ++ " IS NOT NULL AND " ++ a ++ " <> '')"
  | some .concat, a :: rest => "(" ++ " || ".intercalate (a :: rest) ++ ")"
  | some .substring, [a, start] => "substr(" ++ a ++ ", " ++ start ++ " + 1)"
  | some .substring, [a, start, length] =>
    "substr(" ++ a ++ ", " ++ start ++ " + 1, " ++ length ++ ")"
  | some .choice, [condition, a, b] =>
    "CASE WHEN " ++ condition ++ " THEN " ++ a ++ " ELSE " ++ b ++ " END"
  | some .negation, [a] => "NOT (" ++ a ++ ")"
  | _, _ => plainCall function arguments

/-- The call of an aggregate on arguments that are SQL. -/
def aggregateText (dialect : Dialect) (function : String) (arguments : List String) : String :=
  match function.toLower, arguments with
  | "count", [] => "count(*)"
  | "dcount", [a] => "count(DISTINCT " ++ a ++ ")"
  | "countif", [condition] => "sum(CASE WHEN " ++ condition ++ " THEN 1 ELSE 0 END)"
  | "make_bag", arguments => plainCall dialect.objectAggregate arguments
  | "make_list", arguments => plainCall dialect.arrayAggregate arguments
  | "make_set", [a] => dialect.arrayAggregate ++ "(DISTINCT " ++ a ++ ")"
  | _, arguments => plainCall function arguments

end PipeSql.Sql
