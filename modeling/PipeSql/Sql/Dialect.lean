import PipeSql.Query.Stage
import PipeSql.Text.Doubled

/-! The dialects of SQL, and the words and marks in which they agree or differ. -/

namespace PipeSql.Sql

open Query Text

/-- The dialects. -/
inductive Dialect where
  | sqlite | postgres
  deriving DecidableEq, Repr

/-- The types of casts. -/
inductive CastType where
  | integer | real | text
  deriving DecidableEq, Repr

/-- A name between double quotes. -/
def quoteName (name : String) : String :=
  enclosed '"' name

/-- A text between single quotes. -/
def quoteText (text : String) : String :=
  enclosed '\'' text

/-- The truth values. -/
def boolText : Bool → String
  | true => "TRUE"
  | false => "FALSE"

/-- The clause that limits the number of rows. -/
def limitText (n : Nat) : String :=
  " LIMIT " ++ toString n

/-- The words of a join. -/
def joinText : JoinKind → String
  | .inner => "JOIN"
  | .left => "LEFT JOIN"

namespace Dialect

/-- The name of a dialect. -/
def name : Dialect → String
  | .sqlite => "sqlite"
  | .postgres => "postgres"

/-- The dialect of a name in any case; an unknown name means `sqlite`. -/
def ofName (name : String) : Dialect :=
  match name.toLower with
  | "postgres" | "postgresql" => .postgres
  | _ => .sqlite

/-- The aggregate that makes a JSON object of keys and values. -/
def objectAggregate : Dialect → String
  | .sqlite => "json_group_object"
  | .postgres => "json_object_agg"

/-- The aggregate that makes a JSON array of values. -/
def arrayAggregate : Dialect → String
  | .sqlite => "json_group_array"
  | .postgres => "json_agg"

/-- The name of the type of a cast. -/
def castType : Dialect → CastType → String
  | .sqlite, .integer => "INTEGER"
  | .sqlite, .real => "REAL"
  | .postgres, .integer => "BIGINT"
  | .postgres, .real => "DOUBLE PRECISION"
  | _, .text => "TEXT"

end Dialect

end PipeSql.Sql
