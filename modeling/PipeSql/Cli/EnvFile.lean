import PipeSql.Cli.Host
import PipeSql.Files.Path
import PipeSql.Text.Blank
import PipeSql.Text.Lines
import PipeSql.Text.Numeric
import PipeSql.Text.Utf8

/-!
The file `.env`: assignments to variables, one a line. Values may be quoted, and name variables
behind a dollar sign. A variable that is set already keeps its value.
-/

namespace PipeSql.Cli.EnvFile

open Text

/-- A part of a value: a character, or the value of a variable. -/
inductive Part where
  | char (c : Char)
  | variable (name : String)
  deriving DecidableEq, Repr

/-- The quotes in which a value stands. -/
inductive Quotes where
  | none | single | double
  deriving DecidableEq, Repr

/-- What comes next in a value: text, a character behind a backslash, the end, or a character of
the name of a variable. Of the name there is what was read, last character first. -/
inductive Mode where
  | text
  | escape
  | ending
  | name (read : List Char)
  | braced (read : List Char)
  deriving DecidableEq, Repr

/-- The character for one behind a backslash. -/
def escaped? (c : Char) : Option Char :=
  if c = '\\' || c = '\'' || c = '"' || c = '$' || c = ' ' then some c
  else if c = 'n' then some '\n'
  else none

/-- Characters that end a value outside quotes. Behind them there may be a comment. -/
def endsValue (c : Char) : Bool :=
  c == ' ' || c == '\t'

/-- The variable whose name was read. -/
def named (read : List Char) : Part :=
  .variable (String.ofList read.reverse)

/-- The parts of a value. The character that ends a name is text, whatever it is. -/
def parts? : Quotes → Mode → List Char → Option (List Part)
  | _, .braced _, [] => none
  | quotes, mode, [] =>
    if quotes ≠ .none then none
    else
      match mode with
      | .name read => some [named read]
      | _ => some []
  | quotes, .ending, c :: rest =>
    if endsValue c then parts? quotes .ending rest
    else if c = '#' then some []
    else none
  | quotes, .escape, c :: rest => do
    return .char (← escaped? c) :: (← parts? quotes .text rest)
  | .single, .text, c :: rest =>
    if c = '\'' then parts? .none .text rest
    else (parts? .single .text rest).map (.char c :: ·)
  | quotes, .name read, c :: rest =>
    if isAlphanumeric c then parts? quotes (.name (c :: read)) rest
    else if c = '\x7b' && read.isEmpty then parts? quotes (.braced []) rest
    else if c = '$' then (parts? quotes (.name []) rest).map (named read :: ·)
    else (parts? quotes .text rest).map fun parts => named read :: .char c :: parts
  | quotes, .braced read, c :: rest =>
    if c = '\x7d' then (parts? quotes .text rest).map (named read :: ·)
    else parts? quotes (.braced (c :: read)) rest
  | quotes, .text, c :: rest =>
    if c = '$' then parts? quotes (.name []) rest
    else if c = '\\' then parts? quotes .escape rest
    else if c = '"' then parts? (if quotes = .none then .double else .none) .text rest
    else if quotes = .none && c = '\'' then parts? .single .text rest
    else if quotes = .none && endsValue c then parts? quotes .ending rest
    else (parts? quotes .text rest).map (.char c :: ·)

/-- A line: nothing, or a variable with its value. -/
inductive Line where
  | empty
  | assignment (name : String) (value : List Part)
  deriving DecidableEq, Repr

/-- A name: letters, digits and underscores, and no digit first. -/
def name? (cs : List Char) : Option (List Char × List Char) :=
  if cs.head?.any fun c => c.isAlpha || c = '_' then
    some (cs.span fun c => c.isAlphanum || c = '_')
  else none

/-- What stands behind an equals sign. -/
def behindEquals? (cs : List Char) : Option (List Char) :=
  match cs.dropWhile isBlank with
  | '=' :: rest => some (rest.dropWhile isBlank)
  | _ => none

/-- An empty line, or one with a comment only. -/
def isEmptyLine (cs : List Char) : Bool :=
  cs.head?.all (· = '#')

/-- Reads a line. The word `export` may stand in front, unless it is the variable. -/
def line? (cs : List Char) : Option Line := do
  let cs := trim cs
  if isEmptyLine cs then return .empty
  let (name, rest) ← name? cs
  let (name, value) ← match behindEquals? rest with
    | some value => some (name, value)
    | none =>
      if name = "export".toList then do
        let (name, rest) ← name? (rest.dropWhile isBlank)
        some (name, ← behindEquals? rest)
      else none
  if isEmptyLine value then return .assignment (String.ofList name) []
  return .assignment (String.ofList name) (← parts? .none .text value)

/-- The lines of a file. Nothing stands for a line that is no text. -/
def lines (file : List UInt8) : List (Option (List Char)) :=
  (partsBetween (some '\n') (decoded file)).map fun line => line.mapM id

section

variable {m : Type → Type} [Monad m]

/-- The value of a variable: as it was set before the file was read, or else by the file. -/
def lookup (host : Host m) (set : List (String × String)) (name : String) :
    m (Option String) := do
  match ← host.valueOf? name with
  | some value => return some value
  | none => return set.lookup name

/-- The text of a value. Variables that are not set stand for nothing. -/
def resolve (host : Host m) (set : List (String × String)) (value : List Part) : m String := do
  let texts ← value.mapM fun
    | .char c => pure c.toString
    | .variable name => return (← lookup host set name).getD ""
  return String.join texts

/-- Adds what lines assign, up to the first that cannot be read. -/
def assign (host : Host m) (set : List (String × String)) :
    List (Option (List Char)) → m (List (String × String))
  | [] => return set
  | line :: rest => do
    match line.bind line? with
    | none => return set
    | some .empty => assign host set rest
    | some (.assignment name parts) =>
      let value ← resolve host set parts
      if (← lookup host set name).isSome then assign host set rest
      else assign host (set ++ [(name, value)]) rest

/-- The variables that the first of the files sets. A directory is passed over. -/
def loadFirst (host : Host m) : List String → m (List (String × String))
  | [] => return []
  | path :: rest => do
    match ← host.read path with
    | .ok file => assign host [] (lines file)
    | .error .missing | .error .isDirectory => loadFirst host rest
    | .error _ => return []

/-- The variables that the nearest file sets: in the working directory or above it. -/
def load (host : Host m) : m (List (String × String)) := do
  let directory ← host.workingDirectory
  loadFirst host ((directory :: Path.above directory).map fun above => Path.join above ".env")

end

end PipeSql.Cli.EnvFile
