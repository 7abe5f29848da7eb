import PipeSql.Files.Fault
import PipeSql.Store.Fault

/-! What the program needs around it: variables, files, a database, and somewhere to print. -/

namespace PipeSql.Cli

/-- The effects of the program. Paths are seen from the working directory; `openDatabase` makes room
for a database in memory; `warn` prints to the other of the two outputs, and `eachLine` goes through
the lines of the input with a value that each line may change. -/
structure Host (m : Type → Type) where
  workingDirectory : m String
  valueOf? : String → m (Option String)
  read : String → m (Except FileFault (List UInt8))
  write : String → String → m (Except FileFault Unit)
  makeDirectory : String → m (Except FileFault Unit)
  openDatabase : m (Except Store.Objection Unit)
  print : String → m Unit
  warn : String → m Unit
  eachLine {σ : Type} : σ → (σ → String → m σ) → m Unit

namespace Host

variable {m : Type → Type} [Monad m]

/-- Whether a directory stands at a path: it is there, but cannot be read. -/
def isDirectory (host : Host m) (path : String) : m Bool := do
  match ← host.read path with
  | .error .isDirectory => return true
  | _ => return false

/-- Makes a directory, unless it is there already. -/
def ensureDirectory (host : Host m) (path : String) : m (Except FileFault Unit) := do
  match ← host.makeDirectory path with
  | .ok () => return .ok ()
  | .error fault => if ← host.isDirectory path then return .ok () else return .error fault

/-- Makes a directory, unless it is there already, below the given ones, the nearest first. These
are made only where one is missing. -/
def makeDirectories (host : Host m) (path : String) : List String → m (Except FileFault Unit)
  | [] => host.ensureDirectory path
  | parent :: above => do
    match ← host.ensureDirectory path with
    | .error .missing =>
      match ← host.makeDirectories parent above with
      | .ok () => host.ensureDirectory path
      | .error fault => return .error fault
    | made => return made

end Host

end PipeSql.Cli
