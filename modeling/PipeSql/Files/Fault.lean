/-! Why a file or a directory cannot be used. -/

namespace PipeSql

/-- Why a file or a directory cannot be used. -/
inductive FileFault where
  | missing
  | present
  | notDirectory
  | isDirectory
  | longName
  | badName
  | other (message : String)
  deriving DecidableEq, Repr

namespace FileFault

/-- The message that reports a fault, with its number where it has one. -/
def message : FileFault → String
  | .missing => "No such file or directory (os error 2)"
  | .present => "File exists (os error 17)"
  | .notDirectory => "Not a directory (os error 20)"
  | .isDirectory => "Is a directory (os error 21)"
  | .longName => "File name too long (os error 36)"
  | .badName => "file name contained an unexpected NUL byte"
  | .other message => message

/-- The fault of a number. -/
def ofNumber (number : Nat) (description : String) : FileFault :=
  match number with
  | 2 => .missing
  | 17 => .present
  | 20 => .notDirectory
  | 21 => .isDirectory
  | 36 => .longName
  | number => .other (description ++ " (os error " ++ toString number ++ ")")

end FileFault

end PipeSql
