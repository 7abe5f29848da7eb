import PipeSql.Sql.Dialect

/-! Why a store fails to load a table or to answer a query. -/

namespace PipeSql.Store

/-- What stands in the way of a statement: the database objects to it, or cannot be opened for a
reason that the system gives. -/
inductive Objection where
  | tableExists (table : String)
  | reservedName (table : String)
  | duplicateColumn (column : String)
  | noSuchTable (table : String)
  | noSuchColumn (column : String)
  | noTable
  | unexpected (near : String)
  | unrecognized (text : String)
  | incomplete
  | notAnInteger
  | unreachable (reason : String)
  deriving DecidableEq, Repr

/-- The words with a code that the database returns. -/
def returned (code : Nat) (words : String) : String :=
  "error returned from database: (code: " ++ toString code ++ ") " ++ words

/-- The words of an objection. -/
def Objection.message : Objection → String
  | .tableExists table => returned 1 ("table " ++ Sql.quoteName table ++ " already exists")
  | .reservedName table => returned 1 ("object name reserved for internal use: " ++ table)
  | .duplicateColumn column => returned 1 ("duplicate column name: " ++ column)
  | .noSuchTable table => returned 1 ("no such table: " ++ table)
  | .noSuchColumn column => returned 1 ("no such column: " ++ column)
  | .noTable => returned 1 "no tables specified"
  | .unexpected near => returned 1 ("near \"" ++ near ++ "\": syntax error")
  | .unrecognized text => returned 1 ("unrecognized token: \"" ++ text ++ "\"")
  | .incomplete => returned 1 "incomplete input"
  | .notAnInteger => returned 20 "datatype mismatch"
  | .unreachable reason => reason

/-- Why a store fails: nothing was loaded yet, the statement is refused for its first word, or
something stands in the way of it at the database. -/
inductive Fault where
  | noData
  | refused (word : String)
  | database (objection : Objection) (statement : String)
  deriving DecidableEq, Repr

/-- The message that reports a fault. -/
def Fault.message : Fault → String
  | .noData => "no data loaded, import a CSV file first"
  | .refused word => "query rejected: " ++ word ++ " statements are not allowed"
  | .database objection statement =>
    "database error: " ++ objection.message ++ " (query: " ++ statement ++ ")"

end PipeSql.Store
