import PipeSql.ResultSet
import PipeSql.Store.Fault

/-! Databases in memory, as far as a store uses them. -/

namespace PipeSql

/-- Where a load fails: at the table that it creates, or at a row that it inserts. -/
inductive Store.LoadObjection where
  | creating (objection : Objection)
  | inserting (objection : Objection)
  deriving DecidableEq, Repr

/-- A database: an empty one, the transaction that creates a table with its rows, and what the
statements of a text do. The headers of its answers can be asked for, and its tables are listed with
their columns in the order in which they were created. -/
class Database (δ : Type) where
  empty : δ
  load : δ → String → List String → List (List String) → δ × Except Store.LoadObjection Unit
  perform : δ → String → δ × Except Store.Objection (List ResultSet)
  headers : δ → String → Except Store.Objection (List String)
  tables : δ → List (String × List String)

end PipeSql
