import PipeSql.Cli.Host
import PipeSql.Files.Tree
import PipeSql.Text.Lines

/-!
A workspace: all that the program sees and changes, as one value. On it the program runs without
effects.
-/

namespace PipeSql.Cli

/-- Files, the directory in which the program works, its environment, input and outputs. -/
structure Workspace where
  files : FileTree
  directory : Location
  environment : List (String × String)
  input : String
  printed : String
  warned : String

namespace Workspace

/-- What changing the files gives: the faults that prevent it change nothing. -/
def changeFiles (change : FileTree → Location → Except FileFault FileTree) :
    StateM Workspace (Except FileFault Unit) := do
  let workspace ← get
  match change workspace.files workspace.directory with
  | .ok files =>
    set { workspace with files }
    return .ok ()
  | .error fault => return .error fault

/-- The workspace as the surroundings of the program. -/
def host : Host (StateM Workspace) where
  workingDirectory := do return "/" ++ "/".intercalate (← get).directory
  valueOf? name := do return (← get).environment.lookup name
  read path := do return (← get).files.read (← get).directory path
  write path text := changeFiles fun files place => files.write place path text.toUTF8.toList
  makeDirectory path := changeFiles fun files place => files.makeDirectory place path
  openDatabase := return .ok ()
  print text := modify fun workspace => { workspace with printed := workspace.printed ++ text }
  warn text := modify fun workspace => { workspace with warned := workspace.warned ++ text }
  eachLine start act := do
    let lines := Text.lines (← get).input.toList
    let _ ← lines.foldlM (fun s line => act s (String.ofList line)) start

end Workspace

end PipeSql.Cli
