import PipeSql.Database
import PipeSql.Row
import PipeSql.Text.Case

/-!
Tables of texts in memory. Table and column names are found without regard to the case of ASCII
letters. A load that fails changes no table.
-/

namespace PipeSql.Store

open Text

/-- A loaded table. A cell that was left out holds the empty text. -/
structure Table where
  name : String
  columns : List String
  rows : List (List String)
  deriving DecidableEq, Repr, Inhabited

/-- Tables in the order in which they were loaded. -/
structure Memory where
  tables : List Table
  deriving DecidableEq, Repr, Inhabited

namespace Memory

/-- The table of a name. -/
def find? (memory : Memory) (name : String) : Option Table :=
  memory.tables.find? fun table => agree table.name name

/-- The first name that agrees with one before it. -/
def repeated? (seen : List String) : List String → Option String
  | [] => none
  | name :: rest =>
    if seen.any (agree name) then some name else repeated? (name :: seen) rest

/-- What speaks against a table with this name and these columns. -/
def objection? (memory : Memory) (table : String) (columns : List String) : Option Objection :=
  if "sqlite_".toList.isPrefixOf table.toLower.toList then some (.reservedName table)
  else if (memory.find? table).isSome then some (.tableExists table)
  else if columns.isEmpty then some (.unexpected ")")
  else (repeated? [] columns).map .duplicateColumn

/-- Loads a table, unless something speaks against it. -/
def load (memory : Memory) (table : String) (columns : List String) (rows : List (List String)) :
    Memory × Except LoadObjection Unit :=
  match memory.objection? table columns with
  | some objection => (memory, .error (.creating objection))
  | none => (⟨memory.tables ++ [⟨table, columns, rows.map (fitted columns.length)⟩]⟩, .ok ())

end Memory

end PipeSql.Store
