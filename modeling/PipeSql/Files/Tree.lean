import PipeSql.Files.Fault
import PipeSql.Files.Path

/-! A tree of files and directories, and what becomes of it when paths are used. -/

namespace PipeSql

/-- A place in a tree: the names on the way to it from the root. -/
abbrev Location := List String

/-- What stands at a place. -/
inductive Entry where
  | directory
  | file (content : List UInt8)
  deriving DecidableEq, Repr

/-- A tree of files and directories. The root is always a directory. -/
structure FileTree where
  entries : List (Location × Entry)
  deriving DecidableEq, Repr, Inhabited

namespace FileTree

/-- What stands at a place. -/
def find? (tree : FileTree) (place : Location) : Option Entry :=
  if place = [] then some .directory
  else (tree.entries.find? fun entry => entry.1 == place).map Prod.snd

/-- Puts something at a place. -/
def put (tree : FileTree) (place : Location) (entry : Entry) : FileTree :=
  ⟨(place, entry) :: tree.entries.filter fun other => other.1 != place⟩

/-- Puts a file at a place, and directories on the way to it. -/
def putFile (tree : FileTree) (place : Location) (content : List UInt8) : FileTree :=
  let ways := (List.range (place.length - 1)).map fun n => place.take (n + 1)
  (ways.foldl (fun tree way => tree.put way .directory) tree).put place (.file content)

/-- Goes on from a place, which has to be a directory. A name may take up 255 bytes. -/
def step (tree : FileTree) (here : Location) (name : String) : Except FileFault Location :=
  match tree.find? here with
  | none => .error .missing
  | some (.file _) => .error .notDirectory
  | some .directory =>
    if name = "" || name = "." then .ok here
    else if name = ".." then .ok here.dropLast
    else if 255 < name.utf8ByteSize then .error .longName
    else .ok (here ++ [name])

/-- The place of a path, as seen from a directory. All but the last name have to exist. -/
def place (tree : FileTree) (directory : Location) (path : String) : Except FileFault Location :=
  if path.isEmpty then .error .missing
  else if path.toList.contains '\x00' then .error .badName
  else if 4096 ≤ path.utf8ByteSize then .error .longName
  else (Path.pieces path).foldlM tree.step (if Path.isAbsolute path then [] else directory)

/-- A path without slashes at its end. -/
def withoutSlash (path : String) : String :=
  match path.toList.reverse.dropWhile (· = '/') with
  | [] => path
  | rest => String.ofList rest.reverse

/-- The content of a file. -/
def read (tree : FileTree) (directory : Location) (path : String) :
    Except FileFault (List UInt8) := do
  match tree.find? (← tree.place directory path) with
  | none => .error .missing
  | some .directory => .error .isDirectory
  | some (.file content) => .ok content

/-- Writes a file, in place of the one that may be there. -/
def write (tree : FileTree) (directory : Location) (path : String) (content : List UInt8) :
    Except FileFault FileTree := do
  let place ← tree.place directory (withoutSlash path)
  if path ≠ withoutSlash path || tree.find? place = some .directory then .error .isDirectory
  else .ok (tree.put place (.file content))

/-- Makes a directory where nothing stands. -/
def makeDirectory (tree : FileTree) (directory : Location) (path : String) :
    Except FileFault FileTree := do
  let place ← tree.place directory (withoutSlash path)
  if (tree.find? place).isSome then .error .present else .ok (tree.put place .directory)

end FileTree

end PipeSql
