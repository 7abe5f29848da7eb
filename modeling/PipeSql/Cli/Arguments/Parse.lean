import PipeSql.Cli.Arguments
import PipeSql.Text.Count

/-!
Reading the command line. An option that waits for its value is settled when the next option, a
file or the end comes; only then is it checked. What is not known at all is refused at once.
-/

namespace PipeSql.Cli

open Text

/-- Why the command line is not carried out: it is wrong, or asks for a text about the program. -/
inductive Refusal where
  | unknown (argument : String)
  | unneededValue (flag : Flag)
  | missingValue (setting : Setting)
  | emptyValue
  | repeated (flag : Flag)
  | badValue (setting : Setting) (reason : String)
  | help
  | version
  deriving DecidableEq, Repr

/-- The message that reports a wrong command line. -/
def Refusal.message : Refusal → String
  | .unknown argument => "unexpected argument '" ++ argument ++ "' found"
  | .unneededValue flag => "unexpected value for '--" ++ flag.name ++ "' found"
  | .missingValue setting => "a value is required for '--" ++ (Flag.setting setting).name ++ "'"
  | .emptyValue => "the name of a file is empty"
  | .repeated flag => "the argument '--" ++ flag.name ++ "' cannot be used multiple times"
  | .badValue setting reason =>
    "invalid value for '--" ++ (Flag.setting setting).name ++ "': " ++ reason
  | .help => "help is asked for"
  | .version => "the version is asked for"

/-- An option that waits, and the value that it has got by now. -/
structure Pending where
  setting : Setting
  value? : Option String

namespace Arguments

/-- Whether an option has its value. -/
def has (arguments : Arguments) : Setting → Bool
  | .query => arguments.query?.isSome
  | .dialect => arguments.dialect?.isSome
  | .output => arguments.output?.isSome
  | .export => arguments.export?.isSome
  | .limit => arguments.limit?.isSome
  | .dataDirectory => arguments.dataDirectory?.isSome

/-- Gives an option its value. It can have only one. -/
def set (arguments : Arguments) (setting : Setting) (value : String) :
    Except Refusal Arguments :=
  if arguments.has setting then .error (.repeated (.setting setting))
  else
    match setting with
    | .query => .ok { arguments with query? := some value }
    | .dialect => .ok { arguments with dialect? := some value }
    | .dataDirectory => .ok { arguments with dataDirectory? := some value }
    | .export =>
      if value.isEmpty then .error .emptyValue
      else .ok { arguments with export? := some value }
    | .output =>
      match OutputFormat.parse value with
      | .ok format => .ok { arguments with output? := some format }
      | .error reason => .error (.badValue .output reason)
    | .limit =>
      match count? value.toList with
      | some n => .ok { arguments with limit? := some n }
      | none => .error (.badValue .limit "not a row count")

/-- Turns a switch on. It can be turned on only once. -/
def turnOn (arguments : Arguments) (switch : Switch) : Except Refusal Arguments :=
  let (on, arguments) := match switch with
    | .sqlOnly => (arguments.sqlOnly, { arguments with sqlOnly := true })
    | .pretty => (arguments.pretty, { arguments with pretty := true })
    | .plan => (arguments.plan, { arguments with plan := true })
    | .noValidate => (arguments.noValidate, { arguments with noValidate := true })
    | .saveConfig => (arguments.saveConfig, { arguments with saveConfig := true })
  if on then .error (.repeated (.switch switch)) else .ok arguments

/-- Gives the option that waits its value. -/
def take (arguments : Arguments) : Option Pending → Except Refusal Arguments
  | none => .ok arguments
  | some ⟨setting, none⟩ => .error (.missingValue setting)
  | some ⟨setting, some value⟩ => arguments.set setting value

/-- Settles the files so far, whose names must not be empty, and the option that waits. -/
def settle (arguments : Arguments) (pending? : Option Pending) : Except Refusal Arguments :=
  if arguments.files.contains "" then .error .emptyValue else arguments.take pending?

/-- Reads an option, with the value that is attached to it. What waits is settled before. -/
def readFlag (arguments : Arguments) (pending? : Option Pending) (flag : Flag)
    (attached? : Option String) : Except Refusal (Arguments × Option Pending) :=
  match flag, attached? with
  | .setting setting, some value => do
    return (← (← arguments.settle pending?).set setting value, none)
  | .setting setting, none => do
    return (← arguments.settle pending?, some ⟨setting, none⟩)
  | flag, some _ => .error (.unneededValue flag)
  | .switch switch, none => do
    return (← (← arguments.settle pending?).turnOn switch, none)
  | .help, none => do
    let _ ← arguments.settle pending?
    .error .help
  | .version, none => do
    let _ ← arguments.settle pending?
    .error .version

/-- Reads a file, unless an option waits for this value. -/
def readValue (arguments : Arguments) (value : String) :
    Option Pending → Except Refusal (Arguments × Option Pending)
  | some ⟨setting, none⟩ => .ok (arguments, some ⟨setting, some value⟩)
  | pending? => do
    let arguments ← arguments.take pending?
    return ({ arguments with files := arguments.files ++ [value] }, none)

/-- The value that is attached to a letter: all that follows, without an equals sign in front. -/
def attached? : List Char → Option String
  | [] => none
  | '=' :: value => some (String.ofList value)
  | value => some (String.ofList value)

/-- Reads one argument. -/
def readArgument (arguments : Arguments) (pending? : Option Pending) (argument : String) :
    Except Refusal (Arguments × Option Pending) :=
  match argument.toList with
  | '-' :: '-' :: long =>
    let name := long.takeWhile (· ≠ '=')
    let value? := (long.dropWhile (· ≠ '=')).tail?.map String.ofList
    match Flag.ofName? (String.ofList name) with
    | some flag => arguments.readFlag pending? flag value?
    | none => .error (.unknown argument)
  | '-' :: letter :: rest =>
    match Flag.ofLetter? letter with
    | some (.setting setting) => arguments.readFlag pending? (.setting setting) (attached? rest)
    | some flag => arguments.readFlag pending? flag none
    | none => .error (.unknown argument)
  | _ => arguments.readValue argument pending?

/-- Reads arguments one after the other. All behind two dashes are files. -/
def read (arguments : Arguments) (pending? : Option Pending) :
    List String → Except Refusal Arguments
  | [] => arguments.settle pending?
  | argument :: rest =>
    if argument = "--" then do
      let arguments ← arguments.settle pending?
      { arguments with files := arguments.files ++ rest }.settle none
    else do
      let (arguments, pending?) ← arguments.readArgument pending? argument
      arguments.read pending? rest

/-- What a command line says. -/
def parse (arguments : List String) : Except Refusal Arguments :=
  read {} none arguments

end Arguments

end PipeSql.Cli
