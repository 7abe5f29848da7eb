import PipeSql.Json.Reader
import PipeSql.Json.Writer
import PipeSql.OutputFormat
import PipeSql.Text.Count

/-! Preferences: what is assumed where the command line says nothing, and its text in a file. -/

namespace PipeSql

open Text

/-- What is assumed where the command line says nothing. A row limit of zero is none. -/
structure Preferences where
  rowLimit : Nat := 1000
  prettySql : Bool := false
  output : OutputFormat := .table
  validates : Bool := true
  deriving DecidableEq, Repr

namespace Preferences

/-- The limit for queries that set none. -/
def rowLimit? (preferences : Preferences) : Option Nat :=
  if 0 < preferences.rowLimit then some preferences.rowLimit else none

/-- The names of the fields in the file, in their order. -/
def fieldNames : List String :=
  ["default_row_limit", "pretty_sql", "output_format", "validate_names"]

/-- The text of the file. -/
def text (preferences : Preferences) : String :=
  (JsonText.object
    (fieldNames.zip
      [.natural preferences.rowLimit, .bool preferences.prettySql,
        .string preferences.output.name, .bool preferences.validates])).text

/-- The form that a value names: a string, or the name of a member without content. -/
def format? (value : Json) : Option OutputFormat := do
  let spelling ← match value with
    | .string spelling | .object [(spelling, .null)] => some spelling
    | _ => none
  OutputFormat.ofName? (String.ofList (← Json.decoded? spelling))

/-- Sets the field of a name. -/
def set? (preferences : Preferences) (name : String) (value : Json) : Option Preferences :=
  match name, value with
  | "default_row_limit", .number spelling =>
    ((natural? spelling).filter (· ≤ maxCount)).map ({ preferences with rowLimit := · })
  | "pretty_sql", .bool b => some { preferences with prettySql := b }
  | "output_format", value => (format? value).map ({ preferences with output := · })
  | "validate_names", .bool b => some { preferences with validates := b }
  | _, _ => none

/-- Sets fields one after the other. -/
def ofFields? (fields : List (String × Json)) : Option Preferences :=
  fields.foldlM (fun preferences field => preferences.set? field.1 field.2) {}

/-- The preferences that a value stands for: fields in order, as many as there are; or named
fields, none of them twice, and among them others that do not count. -/
def ofJson? : Json → Option Preferences
  | .array items =>
    if items.length ≤ fieldNames.length then ofFields? (fieldNames.zip items) else none
  | .object members => do
    let members ← members.mapM fun (spelling, value) =>
      return (String.ofList (← Json.decoded? spelling), value)
    let fields := members.filter fun member => fieldNames.contains member.1
    if (fields.map Prod.fst).Nodup then ofFields? fields else none
  | _ => none

/-- The preferences of a file. -/
def parse? (text : String) : Option Preferences :=
  Json.parse? text.toList >>= ofJson?

end Preferences

end PipeSql
