import PipeSql.OutputFormat

/-! What the command line says. -/

namespace PipeSql.Cli

/-- The name under which the program is called. -/
def programName : String := "kqlite"

/-- The version of the program. -/
def version : String := "0.1.0"

/-- Options that take a value. -/
inductive Setting where
  | query | dialect | output | export | limit | dataDirectory
  deriving DecidableEq, Repr

/-- Options that take none. -/
inductive Switch where
  | sqlOnly | pretty | plan | noValidate | saveConfig
  deriving DecidableEq, Repr

/-- The options. -/
inductive Flag where
  | setting (setting : Setting)
  | switch (switch : Switch)
  | help
  | version
  deriving DecidableEq, Repr

namespace Flag

/-- All options, in the order of the help text. -/
def all : List Flag :=
  [.setting .query, .switch .sqlOnly, .setting .dialect, .switch .pretty, .switch .plan,
    .setting .output, .setting .export, .setting .limit, .switch .noValidate,
    .setting .dataDirectory, .switch .saveConfig, .help, .version]

/-- The name behind two dashes. -/
def name : Flag → String
  | .setting .query => "execute"
  | .setting .dialect => "dialect"
  | .setting .output => "output"
  | .setting .export => "export"
  | .setting .limit => "limit"
  | .setting .dataDirectory => "data-dir"
  | .switch .sqlOnly => "sql-only"
  | .switch .pretty => "pretty"
  | .switch .plan => "plan"
  | .switch .noValidate => "no-validate"
  | .switch .saveConfig => "save-config"
  | .help => "help"
  | .version => "version"

/-- The letter behind one dash. -/
def letter? : Flag → Option Char
  | .setting .query => some 'e'
  | .setting .output => some 'o'
  | .help => some 'h'
  | .version => some 'V'
  | _ => none

/-- The option of a name. -/
def ofName? (name : String) : Option Flag :=
  all.find? fun flag => flag.name = name

/-- The option of a letter. -/
def ofLetter? (letter : Char) : Option Flag :=
  all.find? fun flag => flag.letter? = some letter

theorem ofName?_name (flag : Flag) : ofName? flag.name = some flag := by
  cases flag with
  | setting s => cases s <;> decide
  | switch s => cases s <;> decide
  | help => decide
  | version => decide

end Flag

/-- What the command line says. Files are named in the order in which they are loaded. -/
structure Arguments where
  files : List String := []
  query? : Option String := none
  sqlOnly : Bool := false
  dialect? : Option String := none
  pretty : Bool := false
  plan : Bool := false
  output? : Option OutputFormat := none
  export? : Option String := none
  limit? : Option Nat := none
  noValidate : Bool := false
  dataDirectory? : Option String := none
  saveConfig : Bool := false
  deriving DecidableEq, Repr

namespace Arguments

/-- The name of the dialect for SQL that is printed. -/
def dialect (arguments : Arguments) : String :=
  arguments.dialect?.getD "sqlite"

end Arguments

end PipeSql.Cli
