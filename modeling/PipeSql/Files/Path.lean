/-! Paths: names between slashes. -/

namespace PipeSql.Path

/-- A path that starts at the root. -/
def isAbsolute (path : String) : Bool :=
  path.toList.head? = some '/'

/-- The texts between the slashes of a path. -/
def pieces (path : String) : List String :=
  (path.toList.splitOn '/').map String.ofList

/-- The names on a path. Empty ones and single dots lead nowhere. -/
def names (path : String) : List String :=
  (pieces path).filter fun name => name ≠ "" && name ≠ "."

/-- A name up to its last dot, unless that dot is the only one and comes first. -/
def withoutExtension (name : List Char) : List Char :=
  match (name.reverse.dropWhile (· ≠ '.')).tail with
  | [] => name
  | stem => stem.reverse

/-- The last name of a path without its extension. -/
def stem? (path : String) : Option String :=
  ((names path).getLast?.filter (· ≠ "..")).map fun name =>
    String.ofList (withoutExtension name.toList)

/-- The path of a name inside a directory. -/
def join (directory name : String) : String :=
  if directory.isEmpty || directory.toList.getLast? = some '/' then directory ++ name
  else directory ++ "/" ++ name

/-- The directories above a path, the nearest first. -/
def above (path : String) : List String :=
  let names := names path
  let root := if isAbsolute path then "/" else ""
  ((List.range names.length).reverse.map fun n => root ++ "/".intercalate (names.take n)).filter
    (!·.isEmpty)

end PipeSql.Path
