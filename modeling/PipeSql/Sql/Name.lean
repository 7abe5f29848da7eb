import PipeSql.Sql.Dialect

/-! How columns are named: bare where the name is a plain word, quoted elsewhere. -/

namespace PipeSql.Sql

open Query

/-- The words that SQL keeps for itself. -/
def reserved : List String :=
  ["all", "and", "as", "asc", "between", "by", "case", "cast", "check", "collate", "create",
    "cross", "default", "delete", "desc", "distinct", "drop", "else", "end", "escape", "exists",
    "from", "full", "glob", "group", "having", "in", "index", "inner", "insert", "into", "is",
    "join", "key", "left", "like", "limit", "match", "natural", "not", "null", "offset", "on",
    "or", "order", "outer", "primary", "references", "regexp", "right", "select", "set", "table",
    "then", "to", "union", "unique", "update", "using", "values", "when", "where", "with"]

/-- A plain word: an ASCII letter or `_`, and behind it ASCII letters, digits and `_`. -/
def isPlain (name : String) : Bool :=
  match name.toList with
  | [] => false
  | c :: rest => (c.isAlpha || c == '_') && rest.all fun d => d.isAlphanum || d == '_'

/-- The name of a column or a label. -/
def nameText (name : String) : String :=
  if isPlain name && !reserved.contains name.toLower then name else quoteName name

/-- A column, behind its table where one is given. -/
def columnText (column : Column) : String :=
  match column.table with
  | some table => quoteName table ++ "." ++ nameText column.name
  | none => nameText column.name

end PipeSql.Sql
