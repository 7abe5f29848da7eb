import PipeSql.Cli.Host
import PipeSql.Files.Path

/-! The directory in which the preferences are kept. -/

namespace PipeSql.Cli

/-- Why a directory cannot be chosen. -/
inductive DataDirectoryFault where
  | relative
  | unmade (fault : FileFault)
  deriving DecidableEq, Repr

/-- The message that reports a fault. -/
def DataDirectoryFault.message : DataDirectoryFault → String
  | .relative => "Path must be absolute"
  | .unmade fault => "Cannot create directory: " ++ fault.message

/-- The variable that names the directory. -/
def dataDirectoryVariable : String := "KQLITE_DATA_DIR"

/-- The directory: the one that is named by an absolute path, or else one in the home of the
user. -/
def dataDirectory (named? home? : Option String) : String :=
  match named?.filter Path.isAbsolute, home?.filter (!·.isEmpty) with
  | some path, _ => path
  | none, some home => Path.join home ".kqlite"
  | none, none => "."

/-- Makes a directory the one for preferences. -/
def chooseDataDirectory {m : Type → Type} [Monad m] (host : Host m) (path : String) :
    m (Except DataDirectoryFault String) := do
  if Path.isAbsolute path then
    return (← host.makeDirectories path (Path.above path)).mapError .unmade |>.map fun () => path
  else return .error .relative

end PipeSql.Cli
