import PipeSql.Csv.Writer
import PipeSql.Json.Writer

/-! The answer to a query: columns with their headers, and rows of texts. -/

namespace PipeSql

/-- Headers, and rows of as many cells. -/
structure ResultSet where
  headers : List String
  rows : List (List String)
  deriving DecidableEq, Repr, Inhabited

namespace ResultSet

/-- Each row as pairs of a header and a cell. -/
def records (result : ResultSet) : List (List (String × String)) :=
  result.rows.map fun row => result.headers.zip row

/-- The result as CSV: the headers, and below them the rows, as records are written. -/
def csv (result : ResultSet)
    (write : List (List String) → Except Csv.Unequal String := Csv.write) :
    Except Csv.Unequal String :=
  write (result.headers :: result.rows)

/-- The result as JSON. -/
def json (result : ResultSet) : String :=
  let strings := fun cells => JsonText.array (cells.map JsonText.string)
  (JsonText.object
    [("headers", strings result.headers), ("rows", JsonText.array (result.rows.map strings))]).text

end ResultSet

end PipeSql
