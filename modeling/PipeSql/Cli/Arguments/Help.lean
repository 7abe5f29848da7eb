import PipeSql.Cli.Arguments

/-! The help text. -/

namespace PipeSql.Cli

namespace Flag

/-- What the value of an option is called. -/
def placeholder? : Flag → Option String
  | .setting .query => some "QUERY"
  | .setting .dialect => some "DIALECT"
  | .setting .output => some "OUTPUT"
  | .setting .export => some "EXPORT"
  | .setting .limit => some "LIMIT"
  | .setting .dataDirectory => some "DATA_DIR"
  | _ => none

/-- What an option is for. -/
def purpose : Flag → String
  | .setting .query => "Query to run; without it queries are read from stdin, one per line"
  | .setting .dialect =>
    "SQL dialect for --sql-only output (sqlite, postgres) [default: sqlite]"
  | .setting .output => "Output format (table, csv, json)"
  | .setting .export => "Write results to this CSV file as well"
  | .setting .limit => "Row cap for queries without limit/take/top (0 = none)"
  | .setting .dataDirectory => "Directory holding preferences.json"
  | .switch .sqlOnly => "Print the generated SQL instead of running it"
  | .switch .pretty => "Format printed SQL over multiple lines"
  | .switch .plan => "Print the query plan instead of running it"
  | .switch .noValidate => "Skip table/column checks before execution"
  | .switch .saveConfig => "Save the effective preferences and exit"
  | .help => "Print help"
  | .version => "Print version"

/-- How an option is written. -/
def usage (flag : Flag) : String :=
  (match flag.letter? with
    | some letter => "  -" ++ letter.toString ++ ", --"
    | none => "      --") ++ flag.name ++
  (match flag.placeholder? with
    | some placeholder => " <" ++ placeholder ++ ">"
    | none => "")

end Flag

/-- The line that says how the program is called. -/
def usageLine : String :=
  "Usage: " ++ programName ++ " [OPTIONS] [FILES]..."

/-- The help text. The purposes of the options stand below one another. -/
def helpText : String :=
  let width := (Flag.all.map fun flag => flag.usage.length).foldl max 0
  "Query CSV files with Kusto-style pipelines, executed on in-memory SQLite\n\n" ++
    usageLine ++ "\n\nArguments:\n" ++
    "  [FILES]...  CSV files to load; each becomes a table named after the file\n\nOptions:\n" ++
    String.join (Flag.all.map fun flag =>
      flag.usage.pushn ' ' (width + 2 - flag.usage.length) ++ flag.purpose ++ "\n")

end PipeSql.Cli
