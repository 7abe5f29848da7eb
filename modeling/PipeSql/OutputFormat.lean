/-! The forms in which results are printed. -/

namespace PipeSql

/-- The forms in which results are printed. -/
inductive OutputFormat where
  | table | csv | json
  deriving DecidableEq, Repr

namespace OutputFormat

/-- The name of a form. -/
def name : OutputFormat → String
  | .table => "table"
  | .csv => "csv"
  | .json => "json"

/-- The form of exactly the given name. -/
def ofName? : String → Option OutputFormat
  | "table" => some .table
  | "csv" => some .csv
  | "json" => some .json
  | _ => none

/-- The form of the given name in any case, or the message that there is none. -/
def parse (text : String) : Except String OutputFormat :=
  match ofName? text.toLower with
  | some format => .ok format
  | none => .error ("unknown output format: " ++ text.toLower)

theorem ofName?_name (format : OutputFormat) : ofName? format.name = some format := by
  cases format <;> rfl

end OutputFormat

end PipeSql
