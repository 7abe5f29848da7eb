import PipeSql.Cli.Arguments
import PipeSql.Cli.DataDirectory
import PipeSql.Grid
import PipeSql.Plan.Dump
import PipeSql.Preferences
import PipeSql.Session

/-! What the program answers to a query, and why it does not. -/

namespace PipeSql.Cli

/-- Why the program does not do what it is asked for. -/
inductive Failure where
  | dataDirectory (fault : DataDirectoryFault)
  | file (fault : FileFault)
  | query (error : Query.Error)
  | session (fault : Session.Fault)
  | csv (unequal : Csv.Unequal)
  deriving DecidableEq, Repr

/-- The message that reports a failure. -/
def Failure.message : Failure → String
  | .dataDirectory fault => fault.message
  | .file fault => fault.message
  | .query error => error.message
  | .session fault => fault.message
  | .csv unequal => unequal.message

/-- A result in the form in which it is printed. -/
def printed (result : ResultSet) : OutputFormat → Except Csv.Unequal String
  | .table =>
    let lines := Grid.lines result.headers result.rows
    .ok (String.join (lines.map (· ++ "\n")) ++ "(" ++ toString result.rows.length ++ " rows)\n")
  | .csv => result.csv
  | .json => .ok (result.json ++ "\n")

/-- What is printed for a query, and the CSV that is written to a file before. -/
structure Answer where
  text : String
  exported? : Option (String × String) := none
  deriving DecidableEq, Repr

/-- The preferences for this call: those that were kept, unless the command line says
otherwise. -/
def Arguments.effective (arguments : Arguments) (kept : Preferences) : Preferences where
  rowLimit := arguments.limit?.getD kept.rowLimit
  prettySql := kept.prettySql || arguments.pretty
  output := arguments.output?.getD kept.output
  validates := kept.validates && !arguments.noValidate

/-- The answer to a query: its plan, which is not checked against the session; its SQL, on one
line; or its result. -/
def answer (arguments : Arguments) (output : OutputFormat) (session : Session)
    (query : String) : Except Failure Answer := do
  if arguments.plan then
    let plan ← (explain query).mapError .query
    return ⟨plan ++ "\n", none⟩
  if arguments.sqlOnly then
    let dialect := Sql.Dialect.ofName arguments.dialect
    let sql ← (session.compile dialect query).mapError .query
    return ⟨sql ++ "\n", none⟩
  let result ← (session.run query).mapError .session
  let exported? ← arguments.export?.mapM fun path => do
    return (path, ← result.csv.mapError .csv)
  let text ← (printed result output).mapError .csv
  return ⟨text, exported?⟩

/-- The session behind a query, which only the store can change. -/
def behind (arguments : Arguments) (session : Session) (query : String) : Session :=
  if arguments.plan || arguments.sqlOnly then session else session.after query

end PipeSql.Cli
