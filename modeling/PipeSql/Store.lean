import PipeSql.Store.Guard
import PipeSql.Store.Memory

/-!
The store: a database in memory, which is opened by the first load. It lives as long as it is open:
a reset closes it and opens another. Whether the system lets a database be opened is told with the
operations that open one, as the content of a file is with those that read it.
-/

namespace PipeSql

/-- A store: not open, or with a database. -/
inductive Store (δ : Type := Store.Memory) where
  | unopened
  | opened (database : δ)
  deriving DecidableEq, Repr, Inhabited

namespace Store

/-- The address of a database in memory. -/
def memoryUrl : String := "sqlite::memory:"

/-- The statement that creates a table. -/
def createText (table : String) (columns : List String) : String :=
  "CREATE TABLE " ++ Sql.quoteName table ++ " (" ++
    ", ".intercalate (columns.map fun column => Sql.quoteName column ++ " TEXT") ++ ")"

/-- The statement that inserts a row. -/
def insertText (table : String) (columns : List String) : String :=
  "INSERT INTO " ++ Sql.quoteName table ++ " (" ++ ", ".intercalate (columns.map Sql.quoteName) ++
    ") VALUES (" ++ ", ".intercalate (columns.map fun _ => "?") ++ ")"

/-- The fault of a load, with the statement that failed. -/
def LoadObjection.fault (table : String) (columns : List String) : LoadObjection → Fault
  | .creating objection => .database objection (createText table columns)
  | .inserting objection => .database objection (insertText table columns)

variable {δ : Type} [Database δ]

/-- The tables of a store with their columns. -/
def tables : Store δ → List (String × List String)
  | .unopened => []
  | .opened database => Database.tables database

/-- An empty database, if it can be opened. -/
def connect (opening : Except Objection Unit) : Except Fault δ :=
  match opening with
  | .ok () => .ok Database.empty
  | .error objection => .error (.database objection memoryUrl)

/-- Closes the store and opens another. If that fails, nothing is left of the one before. -/
def reopen (opening : Except Objection Unit) : Store δ × Except Fault Unit :=
  match connect opening with
  | .ok database => (.opened database, .ok ())
  | .error fault => (.unopened, .error fault)

/-- The store behind a reset. -/
def reset (opening : Except Objection Unit := .ok ()) : Store δ :=
  (reopen opening).1

/-- The database of a store, which is opened if there is none. -/
def database (store : Store δ) (opening : Except Objection Unit) : Except Fault δ :=
  match store with
  | .opened database => .ok database
  | .unopened => connect opening

/-- Loads a table. Once it is open, the store stays so, whether or not the load succeeds. -/
def load (store : Store δ) (table : String) (columns : List String) (rows : List (List String))
    (opening : Except Objection Unit := .ok ()) : Store δ × Except Fault Unit :=
  match store.database opening with
  | .error fault => (store, .error fault)
  | .ok database =>
    match Database.load database table columns rows with
    | (database, .error objection) => (.opened database, .error (objection.fault table columns))
    | (database, .ok ()) => (.opened database, .ok ())

/-- The rows of several results, under the headers of the first row. Where there is none, the
database tells the headers, if it can. -/
def gathered (database : δ) (sql : String) (results : List ResultSet) : ResultSet where
  headers :=
    match results.find? fun result => !result.rows.isEmpty with
    | some result => result.headers
    | none => (Database.headers database sql).toOption.getD []
  rows := results.flatMap ResultSet.rows

/-- Runs the statements of a text: the store behind them, and their answer. A refused text is
refused whatever the state of the store. -/
def execute (store : Store δ) (sql : String) : Store δ × Except Fault ResultSet :=
  match refusedWord? sql, store with
  | some word, store => (store, .error (.refused word))
  | none, .unopened => (.unopened, .error .noData)
  | none, .opened database =>
    match Database.perform database sql with
    | (database, .error objection) => (.opened database, .error (.database objection sql))
    | (database, .ok results) => (.opened database, .ok (gathered database sql results))

/-- The answer to the statements of a text. -/
def run (store : Store δ) (sql : String) : Except Fault ResultSet :=
  (store.execute sql).2

/-- The store behind the statements of a text. -/
def after (store : Store δ) (sql : String) : Store δ :=
  (store.execute sql).1

end Store

end PipeSql
