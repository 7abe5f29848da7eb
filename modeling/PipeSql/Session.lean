import PipeSql.Compile
import PipeSql.Import
import PipeSql.Store.Query

/-! A session: a store, the catalog of what was loaded into it, and how queries are compiled. -/

namespace PipeSql

/-- A store with its catalog, and the options for queries. -/
structure Session (δ : Type := Store.Memory) where
  store : Store δ := .unopened
  catalog : Catalog := .empty
  rowLimit? : Option Nat := none
  validates : Bool := false

namespace Session

/-- Why a session does not do what it is asked for. -/
inductive Fault where
  | query (error : Query.Error)
  | execution (fault : Store.Fault)
  | importing (fault : Import.Fault)
  deriving DecidableEq, Repr

/-- The message that reports a fault. -/
def Fault.message : Fault → String
  | .query error => "query error: " ++ error.message
  | .execution fault => "execution error: " ++ fault.message
  | .importing fault => "import error: " ++ fault.message

variable {δ : Type} [Database δ]

/-- Leaves a session without tables. The catalog is cleared once the store is open again. -/
def reopen (session : Session δ) (opening : Except Store.Objection Unit) :
    Session δ × Except Fault Unit :=
  match Store.reopen opening with
  | (store, .error fault) => ({ session with store }, .error (.execution fault))
  | (store, .ok ()) => ({ session with store, catalog := .empty }, .ok ())

/-- The session behind a reset. -/
def reset (session : Session δ) (opening : Except Store.Objection Unit := .ok ()) : Session δ :=
  (session.reopen opening).1

/-- Adds a file as a table. The catalog knows it once it is loaded. -/
def addFile (session : Session δ) (path : String) (content : Except FileFault (List UInt8))
    (opening : Except Store.Objection Unit := .ok ()) : Session δ × Except Fault Schema :=
  match Import.loadFile session.store path content opening with
  | (store, .error fault) => ({ session with store }, .error (.importing fault))
  | (store, .ok schema) =>
    ({ session with store, catalog := session.catalog.register schema.table schema.columns },
      .ok schema)

/-- Adds files in order to an open store, up to the first that fails. -/
def addFiles (session : Session δ) :
    List (String × Except FileFault (List UInt8)) → Session δ × Except Fault (List Schema)
  | [] => (session, .ok [])
  | (path, content) :: rest =>
    match session.addFile path content with
    | (session, .error fault) => (session, .error fault)
    | (session, .ok schema) =>
      let (session, schemas) := session.addFiles rest
      (session, schemas.map (schema :: ·))

/-- Puts files in the place of all that was loaded. The ones in front of a failing file stay. -/
def loadFiles (session : Session δ) (files : List (String × Except FileFault (List UInt8)))
    (opening : Except Store.Objection Unit := .ok ()) : Session δ × Except Fault (List Schema) :=
  match session.reopen opening with
  | (session, .error fault) => (session, .error fault)
  | (session, .ok ()) => session.addFiles files

/-- How queries are compiled for a dialect. -/
def options (session : Session δ) (dialect : Sql.Dialect) : CompileOptions where
  catalog? := if session.validates then some session.catalog else none
  rowLimit? := session.rowLimit?
  dialect := dialect

/-- The SQL for a query in a dialect. -/
def compile (session : Session δ) (dialect : Sql.Dialect) (query : String) :
    Except Query.Error String :=
  PipeSql.compile (session.options dialect) query

/-- Compiles and runs a query: the session behind it, and the answer. Nothing reaches the store if
the query cannot be compiled. -/
def execute (session : Session δ) (query : String) : Session δ × Except Fault ResultSet :=
  match session.compile .sqlite query with
  | .error error => (session, .error (.query error))
  | .ok sql =>
    ({ session with store := session.store.after sql },
      (session.store.run sql).mapError .execution)

/-- The answer to a query. -/
def run (session : Session δ) (query : String) : Except Fault ResultSet :=
  (session.execute query).2

/-- The session behind a query. -/
def after (session : Session δ) (query : String) : Session δ :=
  (session.execute query).1

end Session

end PipeSql
