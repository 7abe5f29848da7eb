import PipeSql.Cli.Answer
import PipeSql.Cli.Arguments.Help
import PipeSql.Cli.Arguments.Parse
import PipeSql.Cli.EnvFile

/-!
The program: reads its arguments and its preferences, loads the files, and answers one query or
those that it is given line by line.
-/

namespace PipeSql.Cli

section

variable {m : Type → Type} [Monad m]

/-- The name of the file with the preferences. -/
def preferencesFile : String := "preferences.json"

/-- The preferences in a directory. Where there are none, or none that can be read, the defaults
hold. -/
def loadPreferences (host : Host m) (directory : String) : m Preferences := do
  match ← host.read (Path.join directory preferencesFile) with
  | .ok file => return ((Text.ofUtf8? file).bind Preferences.parse?).getD {}
  | .error _ => return {}

/-- Writes the preferences into a directory, and gives the path of their file. -/
def savePreferences (host : Host m) (directory : String) (preferences : Preferences) :
    ExceptT Failure m String := do
  if let .error fault ← host.makeDirectories directory (Path.above directory) then
    throw (.file fault)
  let path := Path.join directory preferencesFile
  if let .error fault ← host.write path preferences.text then
    throw (.file fault)
  return path

/-- Answers a query. -/
def answerQuery (host : Host m) (arguments : Arguments) (output : OutputFormat)
    (session : Session) (query : String) : ExceptT Failure m Unit := do
  let answer ← ExceptT.mk (pure (answer arguments output session query))
  if let some (path, csv) := answer.exported? then
    if let .error fault ← host.write path csv then
      throw (.file fault)
  host.print answer.text

/-- Answers the queries that stand on the lines of the input. After one that fails the others
are still answered. -/
def answerLines (host : Host m) (arguments : Arguments) (output : OutputFormat)
    (session : Session) : m Unit :=
  host.eachLine session fun session line => do
    if line.toList.all Text.isBlank then return session
    if let .error failure ← (answerQuery host arguments output session line).run then
      host.warn (failure.message ++ "\n")
    return behind arguments session line

/-- The directory of the preferences: the one that the arguments choose, or else the one that
variables name. -/
def findDataDirectory (host : Host m) (arguments : Arguments) : ExceptT Failure m String := do
  let set ← (EnvFile.load host : m _)
  match arguments.dataDirectory? with
  | some path => do
    match ← (chooseDataDirectory host path : m _) with
    | .ok directory => return directory
    | .error fault => throw (.dataDirectory fault)
  | none => do
    let named? ← (EnvFile.lookup host set dataDirectoryVariable : m _)
    let home? ← (EnvFile.lookup host set "HOME" : m _)
    return dataDirectory named? home?

/-- The session with the files that the arguments name. Without files its store is not opened. -/
def openSession (host : Host m) (arguments : Arguments) (preferences : Preferences) :
    ExceptT Failure m Session := do
  let session : Session :=
    { rowLimit? := preferences.rowLimit?, validates := preferences.validates }
  if arguments.files.isEmpty then return session
  let opening ← (host.openDatabase : m _)
  let files ← arguments.files.mapM fun path => do return (path, ← host.read path)
  match session.loadFiles files opening with
  | (session, .ok _) => return session
  | (_, .error fault) => throw (.session fault)

/-- Does what the arguments say. -/
def execute (host : Host m) (arguments : Arguments) : ExceptT Failure m Unit := do
  let directory ← findDataDirectory host arguments
  let preferences := arguments.effective (← (loadPreferences host directory : m _))
  if arguments.saveConfig then
    let path ← savePreferences host directory preferences
    host.print ("Saved preferences to " ++ path ++ "\n")
  else
    let session ← openSession host arguments preferences
    match arguments.query? with
    | some query => answerQuery host arguments preferences.output session query
    | none => (answerLines host arguments preferences.output session : m _)

/-- Runs the program and gives its exit code. -/
def run (host : Host m) (arguments : List String) : m UInt32 := do
  match Arguments.parse arguments with
  | .error .help =>
    host.print helpText
    return 0
  | .error .version =>
    host.print (programName ++ " " ++ version ++ "\n")
    return 0
  | .error refusal =>
    host.warn ("error: " ++ refusal.message ++ "\n\n" ++ usageLine ++ "\n")
    return 2
  | .ok arguments =>
    match ← (execute host arguments).run with
    | .ok () => return 0
    | .error failure =>
      host.warn ("Error: " ++ failure.message ++ "\n")
      return 1

end

end PipeSql.Cli
