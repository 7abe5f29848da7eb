import PipeSql.Csv.Reader
import PipeSql.Files.Fault
import PipeSql.Files.Path
import PipeSql.Store

/-! Importing CSV files: the first record names the columns of a table, which is named after the
file. -/

namespace PipeSql

open Text

/-- What is known about an imported table. -/
structure Schema where
  table : String
  columns : List String
  rowCount : Nat
  deriving DecidableEq, Repr

namespace Import

/-- A text with an underscore for each run of blanks. -/
def underscored : List Char → List Char
  | [] => []
  | c :: rest =>
    if !isBlank c then c :: underscored rest
    else if rest.head?.any isBlank then underscored rest
    else '_' :: underscored rest

/-- The name of the table for a file. -/
def tableName (path : String) : String :=
  String.ofList (underscored (trim ((Path.stem? path).getD "").toList))

/-- Why a file is not imported. A directory can be opened, but not read. -/
inductive Fault where
  | unopened (path : String) (fault : FileFault)
  | unread (path : String) (fault : FileFault)
  | malformed (origin : String) (fault : Csv.Fault)
  | noHeader (origin : String)
  | store (fault : Store.Fault)
  deriving DecidableEq, Repr

/-- The message that reports a fault. -/
def Fault.message : Fault → String
  | .unopened path fault => "cannot read " ++ path ++ ": " ++ fault.message
  | .unread path fault => "malformed CSV in " ++ path ++ ": " ++ fault.message
  | .malformed origin fault => "malformed CSV in " ++ origin ++ ": " ++ fault.message
  | .noHeader origin => origin ++ " has no header row"
  | .store fault => fault.message

variable {δ : Type} [Database δ]

/-- Loads CSV into a table. The store is not touched unless the CSV is well-formed. -/
def load (store : Store δ) (table origin : String) (csv : List UInt8)
    (opening : Except Store.Objection Unit := .ok ()) : Store δ × Except Fault Schema :=
  match Csv.table csv with
  | .error fault => (store, .error (.malformed origin fault))
  | .ok ([], _) => (store, .error (.noHeader origin))
  | .ok (columns, rows) =>
    match store.load table columns rows opening with
    | (store, .error fault) => (store, .error (.store fault))
    | (store, .ok ()) => (store, .ok ⟨table, columns, rows.length⟩)

/-- Loads a file into the table that is named after it. -/
def loadFile (store : Store δ) (path : String) (content : Except FileFault (List UInt8))
    (opening : Except Store.Objection Unit := .ok ()) : Store δ × Except Fault Schema :=
  match content with
  | .error .isDirectory => (store, .error (.unread path .isDirectory))
  | .error fault => (store, .error (.unopened path fault))
  | .ok csv => load store (tableName path) path csv opening

end Import

end PipeSql
